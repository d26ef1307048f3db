import QuantityCalc.Proofs.Expression.Places
import QuantityCalc.Proofs.Function.Places
import QuantityCalc.Proofs.Run.Reachable
import QuantityCalc.Proofs.Run.Unfailing
import QuantityCalc.Proofs.Trailer.Runs

/-!
# Where a command line is wrong

Each command reads one text of the line: what follows its keyword or its equals sign, or what is
left of the line (`Command.argument`). If no body that it runs fails, its errors are located in that
text (`Command.placedIn_of_one`), and a line reports them as they are. So the bytes in front of the
argument are missing in the position that is reported (`Session.found_behind_front`). The one error
that is shifted is that of a text which is left behind a command.
-/

namespace QuantityCalc

open Session Text

variable {α β : Type} {I : Session → Prop} {s t v : Session} {w rest text : Text} {e : Error}
  {run : Runner}

/-! ## Steps with errors in a text -/

/-- In sessions with a property, a step that fails reports a place of a text. -/
def Action.ErrsIn (I : Session → Prop) (text : Text) (m : Action α) : Prop :=
  ∀ ⦃s t : Session⦄ ⦃e : Error⦄, I s → m.outcome s = .ok (.error e, t) → e.PlacedIn False text

namespace Action.ErrsIn

variable {m : Action α}

/-- What stays in a text reports places of it. -/
theorem of_stays {P : α → Prop} (h : Action.Stays False I text P m) : m.ErrsIn I text :=
  fun _ _ _ hs hm => (h hs hm).2

theorem pure {a : α} : (Pure.pure a : Action α).ErrsIn I text := fun _ _ _ _ hm => by cases hm

theorem throw (h : e.PlacedIn False text) :
    (MonadExcept.throw e : Action α).ErrsIn I text :=
  fun _ _ _ _ hm => by cases hm; exact h

theorem malformed (what : Malformation) : (Command.malformed what : Action α).ErrsIn I text :=
  throw ⟨text, at_zero text⟩

theorem get_bind {f : Session → Action β} (h : ∀ s, I s → (f s).ErrsIn I text) :
    (get >>= f).ErrsIn I text :=
  fun s _ _ hs hm => h s hs hs hm

theorem modify (f : Session → Session) : (modify f : Action PUnit).ErrsIn I text :=
  fun _ _ _ _ hm => by cases hm

/-- An update fails with plain errors, which tell no place. -/
theorem update {f : Session → Except Error (α × Session)} (h : ∀ s, Plainly (f s)) :
    (Action.update f).ErrsIn I text := by
  intro s t e _ hm
  have hplain := h s
  rw [outcome_update] at hm
  cases hf : f s with
  | ok x =>
    rw [hf] at hm
    cases hm
  | error e' =>
    rw [hf] at hm hplain
    cases hm
    exact Error.Plain.placedIn hplain

theorem of_update {f : Session → Except Error (α × Session)} (hm : m = Action.update f)
    (h : ∀ s, Plainly (f s)) : m.ErrsIn I text :=
  hm ▸ update h

theorem of_change {m : Action Unit} {f : Session → Except Error Session}
    (hm : m = Action.change f) (h : ∀ s, Plainly (f s)) : m.ErrsIn I text :=
  of_update hm fun s => (h s).bind fun _ => trivial

/-- One step after the other. -/
theorem bind_of {f : α → Action β} (h : m.ErrsIn I text)
    (hf : ∀ {s t u : Session} {a : α} {e : Error}, I s → m.outcome s = .ok (.ok a, t) →
      (f a).outcome t = .ok (.error e, u) → e.PlacedIn False text) :
    (m >>= f).ErrsIn I text := by
  intro s u e hs hm
  rw [outcome_bind] at hm
  rcases hout : m.outcome s with halt | ⟨e' | a, t⟩
  · rw [hout] at hm
    cases hm
  · rw [hout] at hm
    cases hm
    exact h hs hout
  · rw [hout] at hm
    exact hf hs hout hm

/-- The first step may lead to any session. -/
theorem bind {f : α → Action β} (h : m.ErrsIn I text)
    (hf : ∀ a, (f a).ErrsIn (fun _ => True) text) : (m >>= f).ErrsIn I text :=
  bind_of h fun _ _ hm => hf _ trivial hm

/-- The first step leads to something with a property. -/
theorem stays_bind {P : α → Prop} {f : α → Action β} (h : Action.Stays False I text P m)
    (hf : ∀ a, P a → (f a).ErrsIn I text) : (m >>= f).ErrsIn I text :=
  bind_of (of_stays h) fun hs hout hm => hf _ (h hs hout).2 (h hs hout).1 hm

end Action.ErrsIn

/-- Neither step of the declaration of a unit reports a place. -/
theorem errsIn_declareUnit (symbol : String) (value : Quantity) :
    (declareUnit symbol value).ErrsIn I text := by
  rw [declareUnit_eq_changes]
  refine .bind (.update fun s => plainly_registerUnit s value symbol) fun id => ?_
  exact .of_change rfl fun s => plainly_bind s _ _ (.unit id)

/-- The scripts that are found report no places, if there are any. -/
def Runner.ScriptsErrIn (I : Session → Prop) (run : Runner) : Prop :=
  ∀ (text : Text) (name : String), Run.Stays I
    (fun path? => ∀ path ∈ path?, (runScript run path).ErrsIn I text) (findScript name)

/-- In a quiet session, there are no scripts to be found. -/
theorem Session.Quiet.scriptsErrIn (hs : s.Quiet) (run : Runner) : run.ScriptsErrIn (· = s) := by
  intro text name t u path? ht hm
  obtain ⟨hu, rfl⟩ := hs.stays_findScript name ht hm
  exact ⟨hu, by simp⟩

/-- A script that is never run to a failure reports no places. -/
theorem scriptsErrIn_unfailing (run : Runner) : run.unfailing.ScriptsErrIn (fun _ => True) :=
  fun _ _ _ _ _ _ _ => ⟨trivial, fun path _ => .of_stays (stays_runScript_unfailing run path)⟩

namespace Command

/-! ## Commands -/

/-- What follows the equals sign of a text, or the text if there is none. -/
def behindSign (t : Text) : Text := ((Name.assignment? t).map (·.2)).getD t

/-- The text that the command of a keyword reads. The text `t` starts with the keyword, and `args`
follows it. -/
def argumentOf (t args : Text) : Keyword → Text
  | .func => t
  | .var | .unit => behindSign args
  | _ => args

/-- The text that a command reads, or a declaration in progress. -/
def argument (declaring : Bool) (w : Text) : Text :=
  if declaring then w
  else
    match Keyword.scan? (trimStart w) with
    | some (k, args) => argumentOf (trimStart w) args k
    | none => behindSign (trimStart w)

theorem behindSign_suffix (t : Text) : behindSign t <:+ t := by
  unfold behindSign
  cases h : Name.assignment? t with
  | none => exact List.suffix_refl t
  | some found => exact (Name.isBehind_of_assignment? h).suffix

theorem behindSign_eq {path : String} (h : Name.assignment? text = some (path, rest)) :
    behindSign text = rest := by
  rw [behindSign, h]
  rfl

/-- Whatever a command reads is an end of the text. -/
theorem argument_suffix (declaring : Bool) (w : Text) : argument declaring w <:+ w := by
  unfold argument
  split
  · exact List.suffix_refl w
  · refine List.IsSuffix.trans ?_ (trimStart_suffix w)
    split
    · rename_i k args hk
      have hargs := (Keyword.isBehind_of_scan? hk).suffix
      cases k with
      | func => exact List.suffix_refl _
      | var | unit => exact (behindSign_suffix args).trans hargs
      | _ => exact hargs
    · exact behindSign_suffix _

/-- What reads expressions in the text of a command stays in it. -/
theorem stays_reading {read : ReadingContext → Text → Run (Parsed α)}
    (hrun : Runner.Stays False I run)
    (h : ∀ {context : ReadingContext}, Runner.Stays False I context.run → context.Stays False I →
      Run.Stays I (Parsed.LocatedIn False text) (read context text)) :
    Action.Stays False I text (fun _ => True) (reading read run text) := by
  refine .lift_bind (Expression.stays_topLevel hrun) fun context hcontext => ?_
  refine .lift_bind (h hcontext.1 hcontext.2) fun parsed hparsed => ?_
  exact .bind (.liftExcept hparsed.2) fun _ _ => .pure trivial

theorem errsIn_converted (hrun : Runner.Stays False I run) (text : Text) :
    (reading Expression.converted run text).ErrsIn I text :=
  .of_stays (stays_reading hrun fun hrun hcontext =>
    Expression.stays_converted hrun hcontext text)

theorem errsIn_list (hrun : Runner.Stays False I run) (text : Text) :
    (reading Expression.list run text).ErrsIn I text :=
  .of_stays (stays_reading hrun fun hrun hcontext => Expression.stays_list hrun hcontext text)

/-- A line of a declaration is wrong at a place of the line. -/
theorem errsIn_declaration (w : Text) : (declaration w).ErrsIn I w := by
  intro s t e _ hm
  have hplace := Draft.locates_feed (s.draft?.getD .idle) w
  simp only [declaration, Action.outcome_bind, Action.outcome_modifyGet, continueDeclaration,
    Action.outcome_liftExcept] at hm
  rcases hfeed : (s.draft?.getD .idle).feed w with ⟨⟨x, rest⟩, d⟩
  rw [hfeed] at hm hplace
  rcases x with e' | f?
  · cases hm
    exact hplace.anyUnits
  · cases f? with
    | none => cases hm
    | some f =>
      have hbind : (registerFunction f >>= fun _ => pure (.lineOfItsOwn rest) :
          Action Outcome).ErrsIn (fun _ => True) w :=
        .bind (.of_change (registerFunction_eq_change f) fun u => plainly_registerFunction u f)
          fun _ => .pure
      exact hbind trivial hm

/-- **Each command reports places of the text that it reads.**. -/
theorem errsIn_run (hrun : Runner.Stays False I run) (hscript : run.ScriptsErrIn I)
    (t args : Text) (k : Keyword) : (Command.run run t args k).ErrsIn I (argumentOf t args k) := by
  cases k with
  | print =>
    exact .bind (errsIn_list hrun args) fun x => .bind (.modify _) fun _ => .pure
  | var =>
    simp only [Command.run, argumentOf]
    split
    · rename_i path expression hassignment
      rw [behindSign_eq hassignment]
      refine .bind (errsIn_converted hrun expression) fun x => ?_
      exact .bind (.of_change (define_eq_change path _) fun u => plainly_define u path _)
        fun _ => .pure
    · exact .malformed _
  | unit =>
    simp only [Command.run, argumentOf]
    split
    · rename_i symbol expression hassignment
      rw [behindSign_eq hassignment]
      refine .bind (errsIn_converted hrun expression) fun x => ?_
      exact .bind (errsIn_declareUnit symbol _) fun _ => .pure
    · exact .malformed _
  | func => exact errsIn_declaration t
  | returning =>
    refine .get_bind fun s _ => ?_
    split
    · exact .throw trivial
    · exact .bind (errsIn_converted hrun args) fun _ => .pure
  | space =>
    simp only [Command.run]
    split
    · rename_i path rest _
      exact .bind (.of_update (declareNamespace_eq_update path) fun u =>
        plainly_declareNamespace u path) fun _ => .pure
    · exact .malformed _
  | remove =>
    simp only [Command.run]
    split
    · rename_i path rest _
      exact .bind (.of_update (remove_eq_update path) fun u => plainly_remove u path) fun _ => .pure
    · exact .malformed _
  | read =>
    simp only [Command.run]
    split
    · exact .malformed _
    · refine .stays_bind (.lift (hscript args _)) fun path? hpath => ?_
      split
      · refine .bind (hpath _ rfl) fun value? => ?_
        split
        · exact .pure
        · exact .pure
      · exact .throw trivial
  | list => exact .bind (.modify _) fun _ => .pure

/-- **A command reports places of its argument**, if what it calls reports no places. -/
theorem placedIn_of_one (hrun : Runner.Stays False I run) (hscript : run.ScriptsErrIn I) (hs : I s)
    (h : (one run w).outcome s = .ok (.error e, t)) :
    e.PlacedIn False (argument s.isDeclaring w) := by
  unfold one at h
  rw [Action.outcome_bind, Action.outcome_get] at h
  dsimp only at h
  cases hdeclaring : s.isDeclaring with
  | true =>
    rw [hdeclaring] at h
    exact errsIn_declaration w hs h
  | false =>
    simp only [hdeclaring, Bool.false_eq_true, if_false] at h
    simp only [argument, Bool.false_eq_true, if_false]
    split at h
    · cases h
    · split at h
      · rename_i hk
        rw [hk]
        exact errsIn_run hrun hscript _ _ _ hs h
      · rename_i path expression hk hassignment
        rw [hk]
        dsimp only
        rw [behindSign_eq hassignment]
        have hassign : (reading Expression.converted run expression >>= fun x =>
            assign path x.1 >>= fun _ => proceed x.2).ErrsIn I expression :=
          .bind (errsIn_converted hrun expression) fun x =>
            .bind (.of_change (assign_eq_change path _) fun u => plainly_assign u path _)
              fun _ => .pure
        exact hassign hs h
      · rename_i hk hassignment
        have hargument : behindSign (trimStart w) = trimStart w := by
          rw [behindSign, hassignment]
          rfl
        rw [hk]
        dsimp only
        rw [hargument]
        have hwrite : (reading Expression.converted run (trimStart w) >>= fun x =>
            modify (fun u => u.write (u.format x.1)) >>= fun _ => proceed x.2).ErrsIn I
              (trimStart w) :=
          .bind (errsIn_converted hrun _) fun x => .bind (.modify _) fun _ => .pure
        exact hwrite hs h

/-! ## Lines -/

/-- **A line reports the error of the command that fails as it is**, unless a text is left behind a
command. -/
theorem comes_of_refused (hrun : Runner.Genuine run) {size : Nat}
    (he : ∀ position behind, e ≠ .malformed position (.unexpected behind))
    (h : (lineFrom run size w).outcome s = .ok (.error e, t)) :
    ∃ v rest, Comes run v rest s w ∧ rest <:+ w ∧ (one run rest).outcome v = .ok (.error e, t) := by
  have hconcludes := concludes_of_lineFrom hrun h
  clear h
  generalize hr : Except.error e = r at hconcludes
  induction hconcludes with
  | @failed s u size w e' hone =>
    cases hr
    exact ⟨s, w, .here, List.suffix_refl w, hone⟩
  | returned | last => cases hr
  | leftover =>
    cases hr
    exact absurd rfl (he _ _)
  | @next s v u size w rest next r hone hrest hnext _ ih =>
    obtain ⟨v', rest', hcomes, hrest', hfails⟩ := ih hr
    have hbehind := (isBehind_of_trimStart hnext).trans_suffix hrest
    exact ⟨v', rest', .next hone hnext hcomes, hrest'.trans hbehind.suffix, hfails⟩
  | lineOfItsOwn hone hrest _ ih =>
    obtain ⟨v', rest', hcomes, hrest', hfails⟩ := ih hr
    exact ⟨v', rest', .lineOfItsOwn hone hcomes, hrest'.trans hrest, hfails⟩

/-- Whether a command that has an outcome runs a body that fails. -/
def FailsInBody (budget : Nat) (v : Session) (w : Text) : Prop :=
  ∃ halt, (one (activation budget).unfailing w).outcome v = .error halt

/-- Without a budget no body is run, so none fails. -/
theorem not_failsInBody_zero {r : Except Error Outcome}
    (h : (one (activation 0) w).outcome v = .ok (r, t)) : ¬FailsInBody 0 v w := by
  rintro ⟨halt, hout⟩
  have hidle : (activation 0).unfailing = activation 0 := rfl
  rw [hidle, h] at hout
  cases hout

/-- Unless a body fails, a command reports places of its argument, and no body is run in a quiet
session. -/
theorem placedIn_of_not_failsInBody {budget : Nat}
    (h : (one (activation budget) w).outcome v = .ok (.error e, t))
    (hbody : v.Quiet ∨ ¬FailsInBody budget v w) : e.PlacedIn False (argument v.isDeclaring w) := by
  rcases hbody with hv | hbody
  · exact placedIn_of_one (hv.stays _) (hv.scriptsErrIn _) rfl h
  · rcases hout : (one (activation budget).unfailing w).outcome v with halt | ⟨r, u⟩
    · exact absurd ⟨halt, hout⟩ hbody
    · cases (outcome_of_unfailing hout).symm.trans h
      exact placedIn_of_one (stays_unfailing _) (scriptsErrIn_unfailing _) trivial hout

end Command

namespace Session

variable {l : String} {budget position : Nat} {found : Char}

/-- **The position of an unexpected character counts from the argument of its command.** If a line
fails at an unexpected character, then a command of the line has failed with the same error. The
character stands behind the bytes in front of the argument of this command and as many further bytes
as the position tells. So it stands at the position that is reported, if the argument is the whole
line. The exception is a session with a function or a script, where the command has run a body that
has failed. -/
theorem found_behind_front
    (h : (execute budget l).outcome s = .ok (.error (.unexpectedChar position found), t)) :
    ∃ v w, Command.Comes (activation budget) v w s l.toList ∧
      (Command.one (activation budget) w).outcome v =
        .ok (.error (.unexpectedChar position found), t) ∧
      (v.Quiet ∨ ¬Command.FailsInBody budget v w → ∃ front rest,
        l.toList = front ++ Command.argument v.isDeclaring w ∧
        Text.At l.toList (bytes front + position) (found :: rest)) := by
  obtain ⟨v, w, hcomes, hw, hfails⟩ :=
    Command.comes_of_refused (genuine_activation budget) (fun _ _ heq => by cases heq) h
  refine ⟨v, w, hcomes, hfails, fun hbody => ?_⟩
  obtain ⟨rest, hplace⟩ :
      (Error.unexpectedChar position found).PlacedIn False (Command.argument v.isDeclaring w) :=
    Command.placedIn_of_not_failsInBody hfails hbody
  obtain ⟨front, hfront⟩ := (Command.argument_suffix v.isDeclaring w).trans hw
  have hargument : Text.At l.toList (bytes front) (Command.argument v.isDeclaring w) :=
    ⟨front, hfront.symm, rfl⟩
  exact ⟨front, rest, hfront.symm, hargument.trans hplace⟩

/-- What is selected of the error of a line, run in a new session. -/
def refused? (select : Error → Option α) (l : String) : Option α :=
  match (execute 0 l).outcome blank with
  | .ok (.error e, _) => select e
  | _ => none

/-- What is selected of a refused line is selected of its error. -/
theorem exists_of_refused? {select : Error → Option α} {a : α} (h : refused? select l = some a) :
    ∃ e u, (execute 0 l).outcome blank = .ok (.error e, u) ∧ select e = some a := by
  unfold refused? at h
  split at h
  · rename_i e u hout
    exact ⟨e, u, hout, h⟩
  · cases h

/-- The position and the character of an error at an unexpected character. -/
def unexpected? : Error → Option (Nat × Char)
  | .unexpectedChar position found => some (position, found)
  | _ => none

theorem eq_of_unexpected? (h : unexpected? e = some (position, found)) :
    e = .unexpectedChar position found := by
  cases e with
  | unexpectedChar p c =>
    cases h
    rfl
  | _ => cases h

/-- The second element of a list is wrong, behind an assignment and a keyword. -/
theorem found_behind_front_list : ∃ t v w front rest,
    (execute 0 "x = 2; Print x, $").outcome blank = .ok (.error (.unexpectedChar 4 '$'), t) ∧
    Command.Comes (activation 0) v w blank "x = 2; Print x, $".toList ∧
    ¬Command.FailsInBody 0 v w ∧
    "x = 2; Print x, $".toList = front ++ Command.argument v.isDeclaring w ∧
    Text.At "x = 2; Print x, $".toList (bytes front + 4) ('$' :: rest) := by
  have hrefused : refused? unexpected? "x = 2; Print x, $" = some (4, '$') := by decide +kernel
  obtain ⟨e, t, hline, he⟩ := exists_of_refused? hrefused
  obtain rfl := eq_of_unexpected? he
  obtain ⟨v, w, hcomes, hfails, hplace⟩ := found_behind_front hline
  have hbody := Command.not_failsInBody_zero hfails
  obtain ⟨front, rest, hfront, hat⟩ := hplace (.inr hbody)
  exact ⟨t, v, w, front, rest, hline, hcomes, hbody, hfront, hat⟩

/-- Behind a keyword, the character that is reported does not stand at its position in the line. -/
theorem not_found_at_position : ∃ t, Reachable [] blank ∧ blank.Quiet ∧
    blank.isDeclaring = false ∧
    (execute 0 "Print $").outcome blank = .ok (.error (.unexpectedChar 1 '$'), t) ∧
    ∀ rest, ¬Text.At "Print $".toList 1 ('$' :: rest) := by
  have hrefused : refused? unexpected? "Print $" = some (1, '$') := by decide +kernel
  obtain ⟨e, t, hline, he⟩ := exists_of_refused? hrefused
  obtain rfl := eq_of_unexpected? he
  refine ⟨t, .start {} _, quiet_blank, rfl, hline, ?_⟩
  intro rest hplace
  obtain ⟨n, hn, hbytes, hdrop⟩ := hplace.exists_take
  have hother : ∀ n ≤ 7, bytes ("Print $".toList.take n) = 1 →
      ("Print $".toList.drop n).head? ≠ some '$' := by decide
  exact hother n hn hbytes.symm (by rw [← hdrop]; rfl)

end Session

end QuantityCalc
