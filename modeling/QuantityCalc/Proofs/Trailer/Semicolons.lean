import QuantityCalc.Proofs.Run.Reachable
import QuantityCalc.Proofs.Trailer.Runs

/-!
# Semicolons

What follows a semicolon runs as a line of its own does in the session that the commands before it
lead to (`Session.outcome_execute_commands`), but for one defect: the text behind the closing brace
of a function is run as a line, and if a semicolon is all that stands between the brace and the next
command, that line begins with an empty expression.
-/

namespace QuantityCalc

open Session Text

variable {s t u v : Session} {w rest next : Text} {flow : Flow} {run : Runner}

namespace Command

/-- Whether a command of a line finishes a function and nothing stands behind its closing brace. -/
def ClosesAtEnd (run : Runner) (s : Session) (w : Text) : Prop :=
  ∃ v rest u, Comes run v rest s w ∧ (one run rest).outcome v = .ok (.ok (.lineOfItsOwn []), u)

theorem not_closesAtEnd_of_last (hone : (one run w).outcome s = .ok (.ok (.done .proceed rest), v))
    (hover : isOver (trimStart rest) = true) : ¬ClosesAtEnd run s w := by
  rintro ⟨u, place, t, hcomes, hclose⟩
  cases hcomes with
  | here => cases hone.symm.trans hclose
  | next h hnext _ =>
    cases hone.symm.trans h
    rw [hnext, isOver_semicolon] at hover
    cases hover
  | lineOfItsOwn h _ => cases hone.symm.trans h

theorem closesAtEnd_of_next (hone : (one run w).outcome s = .ok (.ok (.done .proceed rest), v))
    (hnext : trimStart rest = ';' :: next) : ClosesAtEnd run s w ↔ ClosesAtEnd run v next := by
  constructor
  · rintro ⟨u, place, t, hcomes, hclose⟩
    cases hcomes with
    | here => cases hone.symm.trans hclose
    | next h hnext' hrest =>
      cases hone.symm.trans h
      cases hnext.symm.trans hnext'
      exact ⟨u, place, t, hrest, hclose⟩
    | lineOfItsOwn h _ => cases hone.symm.trans h
  · rintro ⟨u, place, t, hcomes, hclose⟩
    exact ⟨u, place, t, .next hone hnext hcomes, hclose⟩

theorem closesAtEnd_of_lineOfItsOwn
    (hone : (one run w).outcome s = .ok (.ok (.lineOfItsOwn rest), v)) :
    ClosesAtEnd run s w ↔ rest = [] ∨ ClosesAtEnd run v rest := by
  constructor
  · rintro ⟨u, place, t, hcomes, hclose⟩
    cases hcomes with
    | here =>
      cases hone.symm.trans hclose
      exact .inl rfl
    | next h _ _ => cases hone.symm.trans h
    | lineOfItsOwn h hrest =>
      cases hone.symm.trans h
      exact .inr ⟨u, place, t, hrest, hclose⟩
  · rintro (rfl | ⟨u, place, t, hcomes, hclose⟩)
    · exact ⟨s, w, v, .here, hone⟩
    · exact ⟨u, place, t, .lineOfItsOwn hone hcomes, hclose⟩

/-! ## The ends of lines -/

/-- Nothing happens at the end of a line, unless a declaration is in progress. -/
theorem outcome_one_nil (run : Runner) (hs : s.current < s.scopes.size) :
    ∃ v, (one run []).outcome s = .ok (.ok (.done .proceed []), v) ∧
      (v.isDeclaring = false → v = s) := by
  cases hdeclaring : s.isDeclaring with
  | false => exact ⟨s, outcome_one_of_over hdeclaring rfl, fun _ => rfl⟩
  | true =>
    have hopen := isOpen_draft_of_isDeclaring hdeclaring
    have hfeed : (s.draft?.getD .idle).feed [] = (⟨.ok none, []⟩, s.draft?.getD .idle) :=
      Draft.readOn_of_over rfl
    refine ⟨s.setDraft (some (s.draft?.getD .idle)), ?_, fun hfalse => ?_⟩
    · simp only [one, Action.outcome_bind, Action.outcome_get, hdeclaring, if_true, declaration,
        Action.outcome_modifyGet, continueDeclaration, hfeed, hopen, Action.outcome_liftExcept]
      rfl
    · rw [isDeclaring_setDraft hs, Option.any_some, hopen] at hfalse
      cases hfalse

theorem eq_of_runs_nil (hs : s.current < s.scopes.size) (h : Runs run s [] flow u)
    (hu : u.isDeclaring = false) : u = s := by
  obtain ⟨v, hone, hv⟩ := outcome_one_nil run hs
  cases h with
  | returned h => cases hone.symm.trans h
  | last h hover =>
    cases hone.symm.trans h
    exact hv hu
  | next h hnext hrest =>
    cases hone.symm.trans h
    cases hnext
  | lineOfItsOwn h hrest => cases hone.symm.trans h

theorem outcome_value_of_endsAt (context : ReadingContext)
    (h : Expression.endsAt (trimStart w) = true) :
    (Expression.value context w).outcome s = .ok (⟨.error .emptyExpression, trimStart w⟩, s) := by
  have hstep : (Expression.step context {}).outcome (.start w) s =
      .ok ((.ok (.last []), (Cursor.start w).skipBlanks), s) := by
    rw [Expression.outcome_step, Cursor.rest_skipBlanks, Cursor.rest_start, if_pos h]
    rfl
  have hfeed : (Expression.feed context Postfix.run [] {} (.start w)).outcome s =
      .ok (⟨.ok [], (Cursor.start w).skipBlanks⟩, s) := by
    rw [Expression.feed]
    simp only [Run.outcome_bind, Run.outcome_reading, hstep]
    rfl
  simp only [Expression.value, Run.outcome_bind, hfeed]
  rfl

/-- A line that begins with a semicolon begins with an empty expression. -/
theorem outcome_one_semicolon (hs : s.isDeclaring = false) (w : Text) :
    (one run (';' :: w)).outcome s = .ok (.error .emptyExpression, s) := by
  have hends : Expression.endsAt (trimStart (';' :: w)) = true := by
    rw [trimStart_semicolon]
    simp [Expression.endsAt]
  have hassignment : Name.assignment? (';' :: w) = none := by
    simp only [Name.assignment?, Name.path?, trimStart_semicolon]
    rfl
  have hreading : (reading Expression.converted run (';' :: w)).outcome s =
      .ok (.error .emptyExpression, s) := by
    simp [reading, Expression.topLevel, Expression.converted, outcome_value_of_endsAt _ hends]
  have hkeyword : Keyword.scan? (';' :: w) = none := rfl
  simp only [one, Action.outcome_bind, Action.outcome_get, hs, Bool.false_eq_true, if_false,
    trimStart_semicolon, isOver_semicolon, hkeyword, hassignment, hreading]

/-! ## Commands and more commands -/

/-- A text that a semicolon and more commands may follow: it holds no comment and does not end in a
semicolon or in white space. -/
structure IsFront (w : Text) : Prop where
  uncommented : ¬commentMark <:+: w
  last : ∀ c ∈ w.getLast?, c ≠ ';' ∧ isBlank c = false

theorem isFront_of_notMem {c : Char} (hslash : '/' ∉ w) (hlast : w.getLast? = some c)
    (hc : c ≠ ';' ∧ isBlank c = false) : IsFront w := by
  refine ⟨fun hmark => hslash (hmark.subset List.mem_cons_self), fun d hd => ?_⟩
  cases hlast.symm.trans hd
  exact hc

theorem IsFront.of_suffix (h : IsFront w) (hsuffix : rest <:+ w) : IsFront rest := by
  refine ⟨fun hmark => h.uncommented (hmark.trans hsuffix.isInfix), fun c hc => ?_⟩
  obtain ⟨front, rfl⟩ := hsuffix
  refine h.last c ?_
  rw [List.getLast?_append, hc]
  rfl

theorem IsFront.isOver_trimStart (h : IsFront w) (hw : w ≠ []) : isOver (trimStart w) = false := by
  rw [Bool.eq_false_iff]
  intro hover
  rw [isOver, Bool.or_eq_true, List.isEmpty_iff, List.isPrefixOf_iff_prefix] at hover
  rcases hover with hnil | hmark
  · have hblank := List.dropWhile_eq_nil_iff.1 hnil (w.getLast hw) (List.getLast_mem hw)
    have hlast := (h.last (w.getLast hw) (List.getLast?_eq_some_getLast hw)).2
    rw [hlast] at hblank
    cases hblank
  · exact h.uncommented (hmark.isInfix.trans (trimStart_suffix w).isInfix)

theorem IsFront.ne_nil_of_semicolon (h : IsFront (';' :: next)) : next ≠ [] := by
  rintro rfl
  exact (h.last ';' rfl).1 rfl

theorem bytes_le_of_suffix (h : rest <:+ w) : bytes rest ≤ bytes w := by
  obtain ⟨front, rfl⟩ := h
  rw [bytes_append]
  exact Nat.le_add_left _ _

/-- **What follows a semicolon runs in the session that the commands before it lead to.** But behind
a closing brace with which these commands end, the semicolon begins a line. -/
theorem outcome_append_commands (hgenuine : Runner.Genuine run)
    (hrun : Runner.Conforms (fun _ => True) run run) (b : Text) (h : Runs run s w flow u)
    (hflow : flow = .proceed) (hs : s.current < s.scopes.size) (hu : u.isDeclaring = false)
    (hfront : IsFront w) (hw : w ≠ []) {size : Nat} (hsize : bytes b ≤ size) :
    ClosesAtEnd run s w ∧
        (lineFrom run size (w ++ ';' :: b)).outcome s = .ok (.error .emptyExpression, u) ∨
      ¬ClosesAtEnd run s w ∧ ∃ size', bytes b ≤ size' ∧
        (lineFrom run size (w ++ ';' :: b)).outcome s = (lineFrom run size' b).outcome u := by
  have hr : IsTrailer (';' :: b) := .commands b
  have hone {s v : Session} {w : Text} {o : Outcome} (hs : s.current < s.scopes.size)
      (hfront : IsFront w) (hw : w ≠ []) (h : (one run w).outcome s = .ok (.ok o, v))
      (hend : o = .done .proceed [] → v.isDeclaring = false) :
      ∃ o', (one run (w ++ ';' :: b)).outcome s = .ok (.ok o', v) ∧
        Outcome.Trails (';' :: b) o o' :=
    repeats_one hr hgenuine hs (fun _ => hfront.isOver_trimStart hw) (fun _ _ _ => .inl rfl) h hend
  induction h generalizing size with
  | returned h => cases hflow
  | @last s u w rest h hover =>
    -- the text ends in a character of the last command, so this command leaves nothing of it
    have hsuffix : rest <:+ w := grants_one hgenuine w h
    have hnil : rest = [] := by
      by_contra hrest
      have hnot := (hfront.of_suffix hsuffix).isOver_trimStart hrest
      rw [hover] at hnot
      cases hnot
    subst hnil
    obtain ⟨o', h', ho⟩ := hone hs hfront hw h fun _ => hu
    refine .inr ⟨not_closesAtEnd_of_last h hover, size, hsize, ?_⟩
    cases ho with
    | @done _ _ rest' hrest =>
      have hfollows : trimStart rest' = ';' :: b := Eq.trans hrest (trimStart_semicolon b)
      exact outcome_lineFrom_next hgenuine size h' hfollows
  | @next s v u w rest next flow h hnext _ ih =>
    have hsuffix : rest <:+ w := grants_one hgenuine w h
    have hfrontRest : IsFront (';' :: next) :=
      hnext ▸ (hfront.of_suffix hsuffix).of_suffix (trimStart_suffix rest)
    have hfrontNext := hfrontRest.of_suffix (List.suffix_cons ';' next)
    obtain ⟨o', h', ho⟩ := hone hs hfront hw h fun heq => by cases heq; cases hnext
    cases ho with
    | @done _ _ rest' hrest =>
      have hfollows : trimStart rest' = ';' :: (next ++ ';' :: b) := hrest.eq_cons hnext
      rw [outcome_lineFrom_next hgenuine size h' hfollows, closesAtEnd_of_next h hnext]
      exact ih hflow (lt_size_of_one hrun hs h) hu hfrontNext hfrontRest.ne_nil_of_semicolon hsize
  | @lineOfItsOwn s v u w rest flow h hrest ih =>
    have hbehind : rest.IsBehind w := grants_one hgenuine w h
    have hv := lt_size_of_one hrun hs h
    obtain ⟨o', h', ho⟩ := hone hs hfront hw h fun heq => by cases heq
    cases ho
    have hbytes : bytes b ≤ bytes (rest ++ ';' :: b) :=
      bytes_le_of_suffix ((List.suffix_cons ';' b).trans (List.suffix_append rest _))
    rw [outcome_lineFrom_lineOfItsOwn hgenuine size h', closesAtEnd_of_lineOfItsOwn h]
    by_cases hnil : rest = []
    -- nothing stands between the brace and the semicolon, so the line of its own starts with it
    · subst hnil
      obtain rfl := eq_of_runs_nil hv hrest hu
      refine .inl ⟨.inl rfl, ?_⟩
      rw [List.nil_append, outcome_lineFrom hgenuine, outcome_one_semicolon hu]
    · have hrest := ih hflow hv hu (hfront.of_suffix hbehind.suffix) hnil hbytes
      simpa only [hnil, false_or] using hrest

/-! ## Positions -/

/-- The outcome of the end of a line, seen from the whole line: the positions of errors are moved by
`n` bytes. -/
def shifted (n : Nat) (outcome : Except Halt (Except Error Flow × Session)) :
    Except Halt (Except Error Flow × Session) :=
  outcome.map fun (r, s) => (r.mapError (·.shift n), s)

theorem shifted_zero (outcome : Except Halt (Except Error Flow × Session)) :
    shifted 0 outcome = outcome := by
  rcases outcome with h | ⟨e | flow, s⟩
  · rfl
  · cases e <;> rfl
  · rfl

theorem outcome_lineFrom_add (hgenuine : Runner.Genuine run) {size : Nat} (n : Nat)
    (hsize : bytes w ≤ size) :
    ∃ m, (lineFrom run (size + n) w).outcome s = shifted m ((lineFrom run size w).outcome s) := by
  induction hn : w.length using Nat.strongRecOn generalizing s w with
  | ind k ih =>
    have hgrants := grants_one hgenuine w
    rw [outcome_lineFrom hgenuine, outcome_lineFrom hgenuine]
    rcases hone : (one run w).outcome s with x | ⟨e | o, v⟩
    · exact ⟨0, (shifted_zero _).symm⟩
    · exact ⟨0, (shifted_zero _).symm⟩
    · have hforward : o.Forward w := hgrants hone
      cases o with
      | lineOfItsOwn rest => exact ⟨0, (shifted_zero _).symm⟩
      | done flow rest =>
        have hsuffix : rest <:+ w := hforward
        cases flow with
        | returned q => exact ⟨0, (shifted_zero _).symm⟩
        | proceed =>
          have htrim := (trimStart_suffix rest).trans hsuffix
          simp only
          split
          · exact ⟨0, (shifted_zero _).symm⟩
          · split
            · rename_i next hnext
              have hbehind := (isBehind_of_trimStart hnext).trans_suffix hsuffix
              have hle := (bytes_le_of_suffix hbehind.suffix).trans hsize
              exact ih next.length (hn ▸ hbehind.length_lt) hle rfl
            · have hle := (bytes_le_of_suffix htrim).trans hsize
              refine ⟨n, ?_⟩
              simp only [shifted, Except.map, Except.mapError, Error.shift]
              rw [Nat.sub_add_comm hle]

end Command

open Command

/-- **A semicolon separates commands**: what stands behind it runs as a line of its own does in the
session that the commands before it lead to, and positions are moved. But if these commands end in
the closing brace of a function, the semicolon is taken for the beginning of a line, where an
expression is missing, and nothing behind it is run. -/
theorem Session.outcome_execute_commands {fs : List Frame} {a b : String} {budget : Nat}
    (hs : Reachable fs s) (hblank : trimStart a.toList ≠ [])
    (hcomment : ¬commentMark <:+: a.toList)
    (hlast : ∀ c ∈ a.toList.getLast?, c ≠ ';' ∧ isBlank c = false)
    (ha : (execute budget a).outcome s = .ok (.ok .proceed, t)) (ht : t.isDeclaring = false) :
    (¬ClosesAtEnd (activation budget) s a.toList →
      ∃ n, (execute budget (a ++ ";" ++ b)).outcome s =
        shifted n ((execute budget b).outcome t)) ∧
    (ClosesAtEnd (activation budget) s a.toList →
      (execute budget (a ++ ";" ++ b)).outcome s = .ok (.error .emptyExpression, t)) := by
  have hgenuine := genuine_activation budget
  have hrun : Runner.Conforms (fun _ => True) (activation budget) (activation budget) :=
    conforms_activation invariant_true budget
  have htext : (a ++ ";" ++ b).toList = a.toList ++ ';' :: b.toList := by simp
  have hne : a.toList ≠ [] := fun hnil => hblank (by rw [hnil]; rfl)
  have hsize : bytes b.toList ≤ bytes (a.toList ++ ';' :: b.toList) :=
    bytes_le_of_suffix ((List.suffix_cons ';' _).trans (List.suffix_append _ _))
  have hline : (execute budget (a ++ ";" ++ b)).outcome s =
      (lineFrom (activation budget) (bytes (a.toList ++ ';' :: b.toList))
        (a.toList ++ ';' :: b.toList)).outcome s := by
    rw [execute, line, htext]
  rw [hline]
  rcases outcome_append_commands hgenuine hrun b.toList (runs_of_lineFrom hgenuine ha) rfl
    (stack_of_reachable hs).valid.current ht ⟨hcomment, hlast⟩ hne hsize with
    ⟨hclose, hout⟩ | ⟨hclose, size, hle, hout⟩
  · exact ⟨fun hnot => absurd hclose hnot, fun _ => hout⟩
  · refine ⟨fun _ => ?_, fun h => absurd h hclose⟩
    obtain ⟨n, rfl⟩ := Nat.exists_eq_add_of_le hle
    rw [hout]
    exact outcome_lineFrom_add hgenuine n (Nat.le_refl _)

theorem Session.outcome_execute_commands_list :
    ∃ t u, (execute 1 "List").outcome (start {} .unknown) = .ok (.ok .proceed, t) ∧
      (execute 1 "List").outcome t = .ok (.ok .proceed, u) ∧
      (execute 1 ("List" ++ ";" ++ "List")).outcome (start {} .unknown) =
        .ok (.ok .proceed, u) := by
  obtain ⟨t, ht, hdeclaring⟩ := outcome_list 1 (s := start {} .unknown) rfl
  obtain ⟨u, hu, -⟩ := outcome_list 1 hdeclaring
  have hopen : ¬ClosesAtEnd (activation 1) (start {} .unknown) "List".toList := by
    obtain ⟨v, hone, -⟩ := outcome_one_list (activation 1) (s := start {} .unknown) rfl
    exact not_closesAtEnd_of_last hone rfl
  have hfront : IsFront "List".toList := isFront_of_notMem (by decide) rfl (by decide)
  obtain ⟨n, hn⟩ := (outcome_execute_commands (.start {} .unknown) (b := "List") (by decide)
    hfront.uncommented hfront.last ht hdeclaring).1 hopen
  rw [hu] at hn
  exact ⟨t, u, ht, hu, hn⟩

theorem Draft.feed_sample :
    Draft.feed .idle "Func g() \x7b Return 1 \x7d".toList =
      (⟨.ok (some ⟨"g", [], ["Return 1"]⟩), []⟩, .idle) := by
  have hname : step .idle (Cursor.start "Func g() \x7b Return 1 \x7d".toList).skipBlanks =
      (.ok (.named "g"), ⟨6, "() \x7b Return 1 \x7d".toList⟩) := rfl
  have hlist : step (.named "g") (Cursor.mk 6 "() \x7b Return 1 \x7d".toList).skipBlanks =
      (.ok (.listed "g"), ⟨7, ") \x7b Return 1 \x7d".toList⟩) := rfl
  have hhead : step (.listed "g") (Cursor.mk 7 ") \x7b Return 1 \x7d".toList).skipBlanks =
      (.ok (.headed "g" []), ⟨8, " \x7b Return 1 \x7d".toList⟩) := rfl
  have hbody : step (.headed "g" []) (Cursor.mk 8 " \x7b Return 1 \x7d".toList).skipBlanks =
      (.ok (.inBody "g" [] [] 0), ⟨10, " Return 1 \x7d".toList⟩) := rfl
  rw [feed, readOn_heading rfl (by simp)]
  simp only [hname]
  rw [readOn_heading rfl (by simp)]
  simp only [hlist]
  rw [readOn_heading rfl (by simp)]
  simp only [hhead]
  rw [readOn_heading rfl (by simp)]
  simp only [hbody]
  rw [readOn_inBody rfl]
  rfl

theorem Command.outcome_one_func (run : Runner) :
    ∃ t, (one run "Func g() \x7b Return 1 \x7d".toList).outcome (start {} .unknown) =
      .ok (.ok (.lineOfItsOwn []), t) ∧ t.isDeclaring = false := by
  have hcontinue : (start {} .unknown).continueDeclaration "Func g() \x7b Return 1 \x7d".toList =
      (⟨.ok (some ⟨"g", [], ["Return 1"]⟩), []⟩, (start {} .unknown).setDraft none) := by
    have hdraft : (start {} .unknown).draft?.getD .idle = .idle := rfl
    simp only [continueDeclaration, hdraft, Draft.feed_sample]
    rfl
  have hregister :
      ((start {} .unknown).setDraft none).afterRegisterFunction ⟨"g", [], ["Return 1"]⟩ =
        .ok (((start {} .unknown).setDraft none).insert global "g"
          (.function ⟨"g", [], ["Return 1"]⟩ global)) := by
    have hcurrent : ((start {} .unknown).setDraft none).current = global := rfl
    have hnone : ((start {} .unknown).setDraft none).item? global "g" = none := by
      rw [item?_setDraft]
      exact item?_start (by decide)
    simp only [afterRegisterFunction, hcurrent, hnone]
  have hone : (one run "Func g() \x7b Return 1 \x7d".toList).outcome (start {} .unknown) =
      (declaration "Func g() \x7b Return 1 \x7d".toList).outcome (start {} .unknown) := rfl
  refine ⟨((start {} .unknown).setDraft none).insert global "g"
    (.function ⟨"g", [], ["Return 1"]⟩ global), ?_, rfl⟩
  rw [hone]
  simp only [declaration, Action.outcome_bind, Action.outcome_modifyGet, hcontinue,
    Action.outcome_liftExcept, registerFunction_eq_change, Action.outcome_change, hregister]
  rfl

/-- A function and a command behind it run as two lines, but not with a semicolon between them. -/
theorem Session.outcome_execute_behind_brace :
    ∃ t u, (execute 1 "Func g() \x7b Return 1 \x7d").outcome (start {} .unknown) =
        .ok (.ok .proceed, t) ∧ t.isDeclaring = false ∧
      (execute 1 "List").outcome t = .ok (.ok .proceed, u) ∧
      (execute 1 ("Func g() \x7b Return 1 \x7d" ++ ";" ++ "List")).outcome (start {} .unknown) =
        .ok (.error .emptyExpression, t) := by
  have hgenuine := genuine_activation 1
  obtain ⟨t, hone, ht⟩ := outcome_one_func (activation 1)
  obtain ⟨u, hu, -⟩ := outcome_list 1 ht
  have hruns : Runs (activation 1) (start {} .unknown) "Func g() \x7b Return 1 \x7d".toList
      .proceed t :=
    .lineOfItsOwn hone (.last (outcome_one_of_over ht rfl) rfl)
  have hclose : ClosesAtEnd (activation 1) (start {} .unknown)
      "Func g() \x7b Return 1 \x7d".toList :=
    ⟨_, _, t, .here, hone⟩
  refine ⟨t, u, lineFrom_of_runs hgenuine hruns _, ht, hu, ?_⟩
  have hsize : bytes "List".toList ≤ bytes "Func g() \x7b Return 1 \x7d;List".toList := by decide
  have hfront : IsFront "Func g() \x7b Return 1 \x7d".toList :=
    isFront_of_notMem (by decide) rfl (by decide)
  rcases outcome_append_commands hgenuine (conforms_activation invariant_true 1) "List".toList hruns
    rfl Nat.one_pos ht hfront (by decide) hsize with ⟨-, hout⟩ | ⟨hnot, -⟩
  · exact hout
  · exact absurd hclose hnot

end QuantityCalc
