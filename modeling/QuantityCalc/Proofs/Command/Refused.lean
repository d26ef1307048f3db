import QuantityCalc.Proofs.Run.Idle
import QuantityCalc.Proofs.Session.Refusals
import QuantityCalc.Proofs.Trailer.Runs
import QuantityCalc.Proofs.Twin.Options

/-!
# Command lines that are refused

A command is refused as a whole (`whole_one`): it evaluates first, and makes its change last. The
one exception is a unit that is registered although its symbol is bound (`Command.Splits`).

A line is more than its command. The text behind the closing brace of a function is a line of its
own, and the function is bound before that line is run (`Command.Declares`). And what is left behind
a command is looked at when the command has been carried out (`Command.LeavesOver`). Apart from
that, a line without semicolons that is refused changes nothing at all, as long as no body of a
function or a script is run (`unchanged_of_refused`).
-/

namespace QuantityCalc

open Session Text

variable {α β : Type} {s t u v : Session} {w rest : Text} {e : Error}

/-! ## Steps that are made or refused as a whole -/

/-- A step leaves the session as it was, if it fails. Else what it leads to has a property. -/
def Action.Whole (s : Session) (P : α → Session → Prop) (m : Action α) : Prop :=
  ∀ ⦃r : Except Error α⦄ ⦃t : Session⦄, m.outcome s = .ok (r, t) →
    match r with
    | .ok a => P a t
    | .error _ => t = s

namespace Action.Whole

variable {m : Action α} {f : α → Action β} {P : α → Session → Prop} {Q : β → Session → Prop}

theorem pure {a : α} (h : P a s) : Whole s P (Pure.pure a) :=
  fun _ _ hm => by cases hm; exact h

theorem throw (e : Error) : Whole s P (MonadExcept.throw e) :=
  fun _ _ hm => by cases hm; rfl

theorem get_bind {f : Session → Action β} (h : Whole s Q (f s)) : Whole s Q (get >>= f) := h

/-- Nothing is changed before a step that is made or refused as a whole. -/
theorem rests_bind (h : m.Rests s)
    (hf : ∀ a, m.outcome s = .ok (.ok a, s) → Whole s Q (f a)) : Whole s Q (m >>= f) := by
  intro r t hm
  rw [outcome_bind] at hm
  rcases hout : m.outcome s with halt | ⟨e | a, u⟩
  · rw [hout] at hm
    cases hm
  · rw [hout] at hm
    cases hm
    exact h.eq hout
  · obtain rfl := h.eq hout
    rw [hout] at hm
    exact hf a hout hm

/-- Nothing can fail behind a step that is made or refused as a whole. -/
theorem bind_pure (h : Whole s P m) {b : α → β} (hb : ∀ a u, P a u → Q (b a) u) :
    Whole s Q (m >>= fun a => Pure.pure (b a)) := by
  intro r t hm
  rw [outcome_bind] at hm
  rcases hout : m.outcome s with halt | ⟨e | a, u⟩
  · rw [hout] at hm
    cases hm
  · rw [hout] at hm
    cases hm
    exact h hout
  · rw [hout] at hm
    cases hm
    exact hb _ _ (h hout)

/-- A change of the session cannot fail. -/
theorem modify (f : Session → Session) : Whole s (fun _ _ => True) (modify f) :=
  fun _ _ hm => by cases hm; trivial

/-- An update that fails leaves the session as it was. -/
theorem of_update {f : Session → Except Error (α × Session)} (hm : m = Action.update f) :
    Whole s (fun a u => f s = .ok (a, u)) m := by
  intro r u hout
  rw [hm, outcome_update] at hout
  rcases hf : f s with e | ⟨a, v⟩
  · rw [hf] at hout
    cases hout
    rfl
  · rw [hf] at hout
    cases hout
    rfl

/-- A change that fails leaves the session as it was. -/
theorem of_change {m : Action Unit} {f : Session → Except Error Session}
    (hm : m = Action.change f) : Whole s (fun _ u => f s = .ok u) m := by
  intro r u hout
  rcases eq_of_outcome_change (hm ▸ hout) with ⟨rfl, hu⟩ | ⟨e, rfl, -, rfl⟩
  · exact hu
  · rfl

/-- The declaration of a unit fails as a whole, unless the unit can be registered and its symbol is
bound. -/
theorem declareUnit {symbol : String} {value : Quantity}
    (h : ¬(Request.unit symbol value).Splits s) :
    Whole s (fun _ _ => True) (declareUnit symbol value) := by
  intro r u hm
  obtain ⟨x, t, hout, ht⟩ := Request.eq_of_declareUnit_refused h
  cases hout.symm.trans hm
  cases r with
  | ok a => trivial
  | error e => exact ht e rfl

end Action.Whole

/-! ## Declarations of functions -/

theorem Session.setDraft_none (h : s.draft? = none) : s.setDraft none = s := by
  have hscopes : (s.setDraft none).scopes = s.scopes := by
    refine Array.ext_getElem? fun p => ?_
    rw [setDraft, scopes_modifyScope]
    split
    next hp =>
      subst hp
      cases hfound : s.scopes[s.current]? with
      | none => rfl
      | some found =>
        have hdraft : found.draft? = none := by
          rw [← h, draft?, hfound]
          rfl
        rw [Option.map_some, ← hdraft]
    next => rfl
  change { s with scopes := (s.setDraft none).scopes } = s
  rw [hscopes]

/-- Without a declaration in progress, there is no draft. -/
theorem Session.draft?_eq_none (hs : Valid s) (h : s.isDeclaring = false) : s.draft? = none := by
  rw [Option.eq_none_iff_forall_ne_some]
  intro d hd
  obtain ⟨found, hfound, hdraft⟩ := Option.bind_eq_some_iff.1 hd
  have hopen := hs.draft hfound d hdraft
  rw [isDeclaring, hd, Option.any_some, hopen] at h
  cases h

namespace Command

/-- If a text is left as a line of its own, a function has been declared in front of it. -/
def Finishes (s : Session) (w : Text) : Outcome → Session → Prop
  | .done .., _ => True
  | .lineOfItsOwn rest, u => ∃ args f d, Keyword.scan? (trimStart w) = some (.func, args) ∧
      Draft.idle.feed (trimStart w) = (⟨.ok (some f), rest⟩, d) ∧
      (registerFunction f).outcome s = .ok (.ok (), u)

/-- A line of a new declaration binds the function that it finishes, or leaves the declaration
open, or is refused as a whole. -/
theorem whole_declaration (hs : Valid s) (h : s.isDeclaring = false) {args : Text}
    (hk : Keyword.scan? (trimStart w) = some (.func, args)) :
    (declaration (trimStart w)).Whole s (Finishes s w) := by
  have hnone := draft?_eq_none hs h
  have hstay : s.setDraft (if Draft.idle.isOpen then some .idle else none) = s :=
    setDraft_none hnone
  intro r u hm
  simp only [declaration, Action.outcome_bind, Action.outcome_modifyGet, continueDeclaration, hnone,
    Option.getD_none, Action.outcome_liftExcept] at hm
  rcases hfeed : Draft.idle.feed (trimStart w) with ⟨⟨x, rest⟩, d⟩
  rw [hfeed] at hm
  rcases x with e | - | f
  · obtain rfl := Draft.eq_idle_of_feed hfeed (by simp)
    cases hm
    exact hstay
  · cases hm
    trivial
  · obtain rfl := Draft.eq_idle_of_feed hfeed (by simp)
    simp only [hstay] at hm
    have hbind : ((registerFunction f >>= fun _ => pure (.lineOfItsOwn rest) :
        Action Outcome)).Whole s (Finishes s w) :=
      .bind_pure (.of_change (registerFunction_eq_change f)) fun _ _ hu =>
        ⟨args, f, _, hk, hfeed, (outcome_registerFunction_eq_ok s).2 hu⟩
    exact hbind hm

/-! ## Commands -/

/-- Whether a text starts with the declaration of a unit that can be registered, but whose symbol is
bound already in the current scope. -/
def Splits (s : Session) (w : Text) : Prop :=
  ∃ args symbol expression value rest, Keyword.scan? (trimStart w) = some (.unit, args) ∧
    Name.assignment? args = some (symbol, expression) ∧
    (reading Expression.converted (activation 0) expression).outcome s =
      .ok (.ok (value, rest), s) ∧
    (Request.unit symbol value).Splits s

/-- Without a budget for bodies, expressions are read without any change. -/
theorem rests_converted (text : Text) :
    (reading Expression.converted (activation 0) text).Rests s :=
  conforms_reading_converted serves_idle trivial text

theorem rests_runScript (path : String) : (runScript (activation 0) path).Rests s :=
  .bind (conforms_readLines trivial path) fun _ _ _ => .still trivial fun hm => by cases hm

/-- **Each command is refused as a whole**, apart from the declaration of a unit that splits. -/
theorem whole_run (hs : Valid s) (h : s.isDeclaring = false) (hw : ¬Splits s w) {args : Text}
    {k : Keyword} (hk : Keyword.scan? (trimStart w) = some (k, args)) :
    (Command.run (activation 0) (trimStart w) args k).Whole s (Finishes s w) := by
  cases k with
  | print =>
    exact .rests_bind (conforms_reading_list serves_idle trivial args) fun x _ =>
      .bind_pure (.modify _) fun _ _ _ => trivial
  | var =>
    simp only [Command.run]
    split
    · exact .rests_bind (rests_converted _) fun x _ =>
        .bind_pure (.of_change (define_eq_change _ _)) fun _ _ _ => trivial
    · exact .throw _
  | unit =>
    simp only [Command.run]
    split
    · rename_i hassignment
      refine .rests_bind (rests_converted _) fun x hx => .bind_pure (.declareUnit fun hsplits => ?_)
        fun _ _ _ => trivial
      exact hw ⟨args, _, _, _, _, hk, hassignment, hx, hsplits⟩
    · exact .throw _
  | func => exact whole_declaration hs h hk
  | returning =>
    refine .get_bind ?_
    split
    · exact .throw _
    · exact .rests_bind (rests_converted _) fun x _ => .pure trivial
  | space =>
    simp only [Command.run]
    split
    · exact .bind_pure (.of_update (declareNamespace_eq_update _)) fun _ _ _ => trivial
    · exact .throw _
  | remove =>
    simp only [Command.run]
    split
    · exact .bind_pure (.of_update (remove_eq_update _)) fun _ _ _ => trivial
    · exact .throw _
  | read =>
    simp only [Command.run]
    split
    · exact .throw _
    · refine .rests_bind (.lift (conforms_findScript trivial _)) fun path? _ => ?_
      split
      · refine .rests_bind (rests_runScript _) fun value? _ => ?_
        split
        · exact .pure trivial
        · exact .pure trivial
      · exact .throw _
  | list => exact .bind_pure (.modify _) fun _ _ _ => trivial

/-- **A command is made or refused as a whole**, unless it declares a unit that splits. -/
theorem whole_one (hs : Valid s) (h : s.isDeclaring = false) (hw : ¬Splits s w) :
    (one (activation 0) w).Whole s (Finishes s w) := by
  refine .get_bind ?_
  rw [if_neg (Bool.eq_false_iff.1 h)]
  simp only
  split
  · exact .pure trivial
  · split
    · rename_i hk
      exact whole_run hs h hw hk
    · exact .rests_bind (rests_converted _) fun x _ =>
        .bind_pure (.of_change (assign_eq_change _ _)) fun _ _ _ => trivial
    · exact .rests_bind (rests_converted _) fun x _ => .bind_pure (.modify _) fun _ _ _ => trivial

/-! ## Lines -/

/-- What a line starts with: declarations of functions, of which each is finished in front of the
next one, and then a further text. -/
inductive Declares : Text → List UserFunction → Text → Prop where
  | nil (w : Text) : Declares w [] w
  | cons {w args behind rest : Text} {f : UserFunction} {d : Draft} {fs : List UserFunction}
      (hfunc : Keyword.scan? (trimStart w) = some (.func, args))
      (hfeed : Draft.idle.feed (trimStart w) = (⟨.ok (some f), behind⟩, d))
      (hrest : Declares behind fs rest) : Declares w (f :: fs) rest

/-- Whether an error tells that a text is left behind a command that leads to a session. -/
def LeavesOver (s : Session) (w : Text) (e : Error) (t : Session) : Prop :=
  ∃ behind, (one (activation 0) w).outcome s = .ok (.ok (.done .proceed behind), t) ∧
    isOver (trimStart behind) = false ∧
    e = .malformed (bytes w - bytes (trimStart behind))
      (.unexpected (String.ofList (trimStart behind)))

/-- What a refused line without semicolons does to a session: it binds the functions that it starts
with. Apart from them, nothing is changed, or the error tells that a text is left behind a command,
or the command declares a unit that splits. -/
def Refuses (s : Session) (w : Text) (e : Error) (t : Session) : Prop :=
  ∃ fs rest v, Declares w fs rest ∧ (forM fs registerFunction).outcome s = .ok (.ok (), v) ∧
    (t = v ∨ LeavesOver v rest e t ∨ Splits v rest)

/-- What a line does to a session goes on with the text behind a function, which is bound first. -/
theorem Refuses.cons {args behind : Text} {f : UserFunction} {d : Draft}
    (hfunc : Keyword.scan? (trimStart w) = some (.func, args))
    (hfeed : Draft.idle.feed (trimStart w) = (⟨.ok (some f), behind⟩, d))
    (hu : (registerFunction f).outcome s = .ok (.ok (), u)) (h : Refuses u behind e t) :
    Refuses s w e t := by
  obtain ⟨fs, rest, v, hdeclares, hv, h⟩ := h
  refine ⟨f :: fs, rest, v, .cons hfunc hfeed hdeclares, ?_, h⟩
  rw [List.forM_cons, Action.outcome_bind, hu]
  exact hv

/-- To bind a function starts no declaration. -/
theorem isDeclaring_registerFunction {f : UserFunction} (h : s.afterRegisterFunction f = .ok u) :
    u.isDeclaring = s.isDeclaring := by
  have hinsert (item : Item) : (s.insert s.current f.name item).isDeclaring = s.isDeclaring :=
    isDeclaring_modifyScope fun _ => rfl
  unfold afterRegisterFunction at h
  split at h
  · split at h
    · cases h
      exact hinsert _
    · cases h
  · cases h
    exact hinsert _

/-- **A refused line has one of three effects** besides the functions that it starts with. -/
theorem refuses_lineFrom (hs : Valid s) (h : s.isDeclaring = false) (hw : ';' ∉ w)
    (hline : (lineFrom (activation 0) (bytes w) w).outcome s = .ok (.error e, t)) :
    Refuses s w e t := by
  have hconcludes := concludes_of_lineFrom (genuine_activation 0) hline
  clear hline
  generalize hsize : bytes w = size at hconcludes
  generalize hr : Except.error e = r at hconcludes
  induction hconcludes with
  | @failed s u size w e' hone =>
    cases hr
    by_cases hsplits : Splits s w
    · exact ⟨[], w, s, .nil w, rfl, .inr (.inr hsplits)⟩
    · exact ⟨[], w, s, .nil w, rfl, .inl (whole_one hs h hsplits hone)⟩
  | returned | last => cases hr
  | @leftover s u size w rest hone hover =>
    cases hr
    subst hsize
    exact ⟨[], w, s, .nil w, rfl, .inr (.inl ⟨rest, hone, hover, rfl⟩)⟩
  | @next s v u size w rest next r hone hrest hnext _ ih =>
    have hmem : ';' ∈ trimStart rest := hnext ▸ List.mem_cons_self
    exact absurd (hrest.subset ((trimStart_suffix rest).subset hmem)) hw
  | @lineOfItsOwn s v u size w rest r hone hrest _ ih =>
    by_cases hsplits : Splits s w
    · exact ⟨[], w, s, .nil w, rfl, .inr (.inr hsplits)⟩
    obtain ⟨args, f, d, hfunc, hfeed, hv⟩ := whole_one hs h hsplits hone
    have hafter := (outcome_registerFunction_eq_ok s).1 hv
    refine .cons hfunc hfeed hv (ih ?_ ?_ ?_ rfl hr)
    · exact valid_of_move hs (move_of_registerFunction hafter)
    · exact (isDeclaring_registerFunction hafter).trans h
    · exact fun hmem => hw (hrest.subset hmem)

end Command

namespace Session

variable {fs : List Frame} {l : String} {budget : Nat}

/-- Whether a line is run without running the body of a function or a script. -/
def RunsNoBody (s : Session) (l : String) : Prop := ∃ r t, (execute 0 l).outcome s = .ok (r, t)

/-- **A line without semicolons that is refused changes nothing**, in a reachable session without a
declaration in progress, as long as no body of a function or a script is run: items, namespaces, the
system of units and the lines written remain. But functions that are declared at the front of the
line are bound, a command is carried out before what is left behind it is refused, and a unit may be
registered whose symbol is bound. The output accepts every line, so no command fails between two
lines that it writes. -/
theorem unchanged_of_refused (hs : Reachable fs s) (hdeclaring : s.isDeclaring = false)
    (hsingle : ';' ∉ l.toList) (hbody : s.RunsNoBody l)
    (h : (execute budget l).outcome s = .ok (.error e, t)) :
    ∃ functions rest v, Command.Declares l.toList functions rest ∧
      (forM functions registerFunction).outcome s = .ok (.ok (), v) ∧
      (t = v ∨ Command.LeavesOver v rest e t ∨ Command.Splits v rest) := by
  obtain ⟨r, u, hidle⟩ := hbody
  have hout := outcome_of_le (Nat.zero_le budget) hidle
  cases hout.symm.trans h
  exact Command.refuses_lineFrom (stack_of_reachable hs).valid hdeclaring hsingle hidle

/-! ## A line without effect, and one with a bracket behind its command -/

/-- A name without a point behind it is a path. -/
theorem path?_of_scan {name : Text} (h : Name.scan? (trimStart w) = some (name, rest))
    (hrest : rest.head? ≠ some '.') : Name.path? w = some (String.ofList name, rest) := by
  have hmore : Name.segmentsFrom rest = ([], rest) := by
    rw [Name.segmentsFrom]
    rintro t rfl
    exact hrest rfl
  rw [Name.path?, h]
  change some (String.ofList (name ++ (Name.segmentsFrom rest).1),
    (Name.segmentsFrom rest).2) = _
  rw [hmore, List.append_nil]

/-- A command with a keyword is run by it, unless a declaration is in progress. -/
theorem outcome_one_of_keyword (run : Runner) (h : s.isDeclaring = false) {k : Keyword}
    {args : Text} (hover : isOver (trimStart w) = false)
    (hk : Keyword.scan? (trimStart w) = some (k, args)) :
    (Command.one run w).outcome s = (Command.run run (trimStart w) args k).outcome s := by
  simp only [Command.one, Action.outcome_bind, Action.outcome_get, h, hover, hk,
    Bool.false_eq_true, if_false]

theorem outcome_execute_remove (budget : Nat) :
    (execute budget "Remove x").outcome (start {} .unknown) =
      .ok (.error (.unknownName "x"), start {} .unknown) := by
  have hscan : Keyword.scan? (trimStart "Remove x".toList) = some (.remove, " x".toList) := by
    decide
  have hover : isOver (trimStart "Remove x".toList) = false := by decide
  have hname : Name.scan? (trimStart " x".toList) = some (['x'], []) := by decide
  have hpath : Name.path? " x".toList = some ("x", []) := path?_of_scan hname (by decide)
  have hremove : (start {} .unknown).afterRemove "x" = .error (.unknownName "x") := by
    have hnone : (start {} .unknown).item? global "x" = none := item?_start (by decide)
    have hdotted : isDotted "x" = false := by decide
    have hfind : (start {} .unknown).find? "x" = none := by
      have hchain : (start {} .unknown).chain global = [global] :=
        chain_global (valid_start _ _)
      have hcurrent : (start {} .unknown).current = global := rfl
      rw [find?, hcurrent, hchain]
      simp [hnone]
    simp only [afterRemove, scopeToClear, hdotted, hfind]
    rfl
  have hone : (Command.one (activation budget) "Remove x".toList).outcome (start {} .unknown) =
      .ok (.error (.unknownName "x"), start {} .unknown) := by
    rw [outcome_one_of_keyword _ rfl hover hscan]
    simp only [Command.run, hpath, Action.outcome_bind, remove_eq_update, Action.outcome_update,
      hremove]
  rw [execute, Command.line, Command.outcome_lineFrom (genuine_activation budget), hone]

theorem unchanged_of_refused_remove :
    ∃ functions rest v, Reachable [] (start {} .unknown) ∧
      (start {} .unknown).isDeclaring = false ∧ ';' ∉ "Remove x".toList ∧
      (start {} .unknown).RunsNoBody "Remove x" ∧
      (execute 1 "Remove x").outcome (start {} .unknown) =
        .ok (.error (.unknownName "x"), start {} .unknown) ∧
      Command.Declares "Remove x".toList functions rest ∧
      (forM functions registerFunction).outcome (start {} .unknown) = .ok (.ok (), v) ∧
      (start {} .unknown = v ∨ Command.LeavesOver v rest (.unknownName "x") (start {} .unknown) ∨
        Command.Splits v rest) := by
  have hbody : (start {} .unknown).RunsNoBody "Remove x" := ⟨_, _, outcome_execute_remove 0⟩
  have hsingle : ';' ∉ "Remove x".toList := by decide
  obtain ⟨functions, rest, v, h⟩ :=
    unchanged_of_refused (.start {} .unknown) rfl hsingle hbody (outcome_execute_remove 1)
  exact ⟨functions, rest, v, .start {} .unknown, rfl, hsingle, hbody, outcome_execute_remove 1, h⟩

/-- A namespace that is declared in front of a bracket remains, although the line is refused. -/
theorem changed_by_leftover :
    ∃ e t, Reachable [] (start {} .unknown) ∧ (start {} .unknown).isDeclaring = false ∧
      ';' ∉ "Namespace a ]".toList ∧ (start {} .unknown).RunsNoBody "Namespace a ]" ∧
      (execute 0 "Namespace a ]").outcome (start {} .unknown) = .ok (.error e, t) ∧
      (start {} .unknown).item? global "a" = none ∧ t.item? global "a" = some (.space 1) := by
  have hscan : Keyword.scan? (trimStart "Namespace a ]".toList) = some (.space, " a ]".toList) := by
    decide
  have hover : isOver (trimStart "Namespace a ]".toList) = false := by decide
  have hname : Name.scan? (trimStart " a ]".toList) = some (['a'], " ]".toList) := by decide
  have hpath : Name.path? " a ]".toList = some ("a", " ]".toList) :=
    path?_of_scan hname (by decide)
  have hnone : (start {} .unknown).item? global "a" = none := item?_start (by decide)
  let t : Session := ((start {} .unknown).insert global "a" (.space 1)).pushScope
    { name := "a", parent? := some global }
  have hdeclare : (start {} .unknown).afterDeclareNamespace "a" = .ok (1, t) := by
    have htarget : (start {} .unknown).target "a" = .ok (global, "a") := rfl
    have hbind : (start {} .unknown).afterBind global "a" (.space 1) =
        .ok ((start {} .unknown).insert global "a" (.space 1)) := by
      simp only [afterBind, hnone]
    simp only [afterDeclareNamespace, htarget]
    rw [show (start {} .unknown).scopes.size = 1 from rfl]
    simp only [Bind.bind, Except.bind, hbind]
    rfl
  have hone : (Command.one (activation 0) "Namespace a ]".toList).outcome (start {} .unknown) =
      .ok (.ok (.done .proceed " ]".toList), t) := by
    rw [outcome_one_of_keyword _ rfl hover hscan]
    simp only [Command.run, hpath, Action.outcome_bind, declareNamespace_eq_update,
      Action.outcome_update, hdeclare]
    rfl
  have hline : ∃ e, (execute 0 "Namespace a ]").outcome (start {} .unknown) =
      .ok (.error e, t) := by
    rw [execute, Command.line, Command.outcome_lineFrom (genuine_activation 0), hone]
    exact ⟨_, rfl⟩
  obtain ⟨e, hline⟩ := hline
  refine ⟨e, t, .start {} .unknown, rfl, by decide, ⟨_, _, hline⟩, hline, hnone, ?_⟩
  have hinsert : ((start {} .unknown).insert global "a" (.space 1)).item? global "a" =
      some (.space 1) := item?_insert_self Nat.one_pos
  rw [item?_eq_some] at hinsert ⊢
  rw [scopes_pushScope, if_neg (by decide)]
  exact hinsert

end Session

end QuantityCalc
