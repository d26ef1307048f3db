import QuantityCalc.Proofs.Command.Errors
import QuantityCalc.Proofs.Trailer.Draft

/-!
# Commands in front of a trailer

A command that succeeds does so in front of a trailer too, in the same session, and it leaves the
trailer behind what it leaves (`Command.repeats_one`). There are two exceptions. A command that
reads a script takes all that stands in front of the next semicolon as its name, a comment included.
And a declaration that is not finished takes the trailer for a part of it.
-/

namespace QuantityCalc

open Session Text

variable {α β : Type} {r t t' args : Text} {s u : Session} {run : Runner}

/-! ## Two steps -/

/-- If the first step succeeds, so does the second one, in the same session and with a related
value. -/
def Action.Repeats (R : α → α → Prop) (s : Session) (m m' : Action α) : Prop :=
  ∀ ⦃a : α⦄ ⦃u : Session⦄, m.outcome s = .ok (.ok a, u) →
    ∃ a', m'.outcome s = .ok (.ok a', u) ∧ R a a'

namespace Action.Repeats

variable {R : α → α → Prop} {Q : β → β → Prop}

theorem pure {a a' : α} (h : R a a') : Action.Repeats R s (Pure.pure a) (Pure.pure a') := by
  intro b u hm
  cases hm
  exact ⟨a', rfl, h⟩

theorem throw (e : Error) (m' : Action α) : Action.Repeats R s (MonadExcept.throw e) m' := by
  intro b u hm
  cases hm

theorem bind {m m' : Action α} {f f' : α → Action β} (h : Action.Repeats R s m m')
    (hf : ∀ {a a' : α} (u : Session), R a a' → Action.Repeats Q u (f a) (f' a')) :
    Action.Repeats Q s (m >>= f) (m' >>= f') := by
  intro b v hm
  obtain ⟨a, u, ha, hb⟩ := outcome_bind_eq_ok.1 hm
  obtain ⟨a', ha', haa⟩ := h ha
  obtain ⟨b', hb', hbb⟩ := hf u haa hb
  exact ⟨b', outcome_bind_eq_ok.2 ⟨a', u, ha', hb'⟩, hbb⟩

/-- The same step may come first in both. -/
theorem same_bind (m : Action α) {f f' : α → Action β}
    (hf : ∀ (a : α) (u : Session), Action.Repeats Q u (f a) (f' a)) :
    Action.Repeats Q s (m >>= f) (m >>= f') := by
  intro b v hm
  obtain ⟨a, u, ha, hb⟩ := outcome_bind_eq_ok.1 hm
  obtain ⟨b', hb', hbb⟩ := hf a u hb
  exact ⟨b', outcome_bind_eq_ok.2 ⟨a, u, ha, hb'⟩, hbb⟩

theorem get_bind {f f' : Session → Action α} (h : Action.Repeats R s (f s) (f' s)) :
    Action.Repeats R s (get >>= f) (get >>= f') :=
  h

end Action.Repeats

namespace Command

/-- The second end of a command is the first one with a trailer behind the text that is left. -/
inductive Outcome.Trails (r : Text) : Outcome → Outcome → Prop where
  | done (flow : Flow) {rest rest' : Text} (h : Text.Trails r rest rest') :
      Trails r (.done flow rest) (.done flow rest')
  | lineOfItsOwn (rest : Text) : Trails r (.lineOfItsOwn rest) (.lineOfItsOwn (rest ++ r))

/-! ## Expressions and names -/

theorem repeats_reading (hr : IsTrailer r) (hrun : Runner.Genuine run)
    {read : ReadingContext → Text → Run (Parsed α)} {P : Text → Prop} (hP : ∀ rest, P rest)
    (hread : ∀ {context : ReadingContext} {s : Session}, context.Genuine → context.Repeats r →
      Run.Repeats P r s (read context t) (read context t')) :
    Action.Repeats (fun x x' => x'.1 = x.1 ∧ Text.Trails r x.2 x'.2) s (reading read run t)
      (reading read run t') := by
  intro x u hm
  let context : ReadingContext := ⟨run, Expression.arguments run s.options.maxNesting, false⟩
  have hgenuine : context.Genuine := Expression.grants_topLevel hrun (s := s) rfl
  have hrepeats : context.Repeats r := Expression.repeats_context (.trailer hr) hrun _ false
  have hout (t : Text) : (reading read run t).outcome s =
      match (read context t).outcome s with
      | .ok (parsed, u) => .ok (parsed.value.map (·, parsed.rest), u)
      | .error h => .error h := by
    have hbind : (reading read run t).outcome s =
        (do
          let parsed ← ExceptT.lift (read context t)
          return (← liftExcept parsed.value, parsed.rest) : Action (α × Text)).outcome s := rfl
    rw [hbind]
    simp only [Action.outcome_bind, Action.outcome_lift, Action.outcome_liftExcept]
    rcases (read context t).outcome s with h | ⟨⟨e | a, rest⟩, u⟩ <;> rfl
  rw [hout] at hm
  rcases hfirst : (read context t).outcome s with h | ⟨⟨e | a, rest⟩, v⟩
  · rw [hfirst] at hm
    cases hm
  · rw [hfirst] at hm
    cases hm
  · rw [hfirst] at hm
    cases hm
    obtain ⟨rest', hsecond, hrest⟩ := hread hgenuine hrepeats hfirst (hP rest)
    refine ⟨(a, rest'), ?_, rfl, hrest.trails⟩
    rw [hout, hsecond]
    rfl

theorem repeats_converted (hr : IsTrailer r) (hrun : Runner.Genuine run) (h : Text.Trails r t t') :
    Action.Repeats (fun x x' => x'.1 = x.1 ∧ Text.Trails r x.2 x'.2) s
      (reading Expression.converted run t) (reading Expression.converted run t') :=
  repeats_reading hr hrun (fun _ => trivial) fun hgenuine hrepeats =>
    Expression.repeats_converted (.trailer hr) hgenuine hrepeats h

/-- A trailer does not change the name of a script, unless the name goes on in it. -/
theorem span_append (hr : r.head? = some ';' ∨ ';' ∈ args) :
    (args ++ r).takeWhile (· ≠ ';') = args.takeWhile (· ≠ ';') ∧
      (args ++ r).dropWhile (· ≠ ';') = args.dropWhile (· ≠ ';') ++ r := by
  induction args with
  | nil =>
    cases r with
    | nil => simp at hr
    | cons c r =>
      have hc : c = ';' := by simpa using hr
      subst hc
      simp
  | cons c args ih =>
    by_cases hc : c = ';'
    · subst hc
      simp
    · have hmem : r.head? = some ';' ∨ ';' ∈ args :=
        hr.imp_right fun h => (List.mem_cons.1 h).resolve_left fun heq => hc heq.symm
      obtain ⟨htake, hdrop⟩ := ih hmem
      have hpos : decide (c ≠ ';') = true := decide_eq_true hc
      constructor
      · simp only [List.cons_append, List.takeWhile_cons, hpos, if_true, htake]
      · simp only [List.cons_append, List.dropWhile_cons, hpos, if_true, hdrop]

/-! ## Commands -/

theorem isDeclaring_setDraft (hs : s.current < s.scopes.size) (d? : Option Draft) :
    (s.setDraft d?).isDeclaring = d?.any (·.isOpen) := by
  have hscope : (s.setDraft d?).scopes[s.current]? =
      s.scopes[s.current]?.map fun found => { found with draft? := d? } := by
    rw [setDraft, scopes_modifyScope, if_pos rfl]
  have hcurrent : (s.setDraft d?).current = s.current := rfl
  rw [Array.getElem?_eq_getElem hs] at hscope
  simp only [isDeclaring, draft?, hcurrent, hscope]
  rfl

theorem isOpen_draft_of_isDeclaring (h : s.isDeclaring = true) :
    (s.draft?.getD .idle).isOpen = true := by
  unfold isDeclaring at h
  cases hdraft : s.draft? with
  | none =>
    rw [hdraft] at h
    cases h
  | some d =>
    rw [hdraft] at h
    exact h

/-- A line that finishes a declaration does so in front of a trailer too. -/
theorem repeats_declaration (hr : IsTrailer r) (hs : s.current < s.scopes.size)
    (hbegun : s.isDeclaring = true ∨ isOver (trimStart t) = false) {o : Outcome}
    (hm : (declaration t).outcome s = .ok (.ok o, u))
    (hend : o = .done .proceed [] → u.isDeclaring = false) :
    ∃ o', (declaration (t ++ r)).outcome s = .ok (.ok o', u) ∧ Outcome.Trails r o o' := by
  simp only [declaration, Action.outcome_bind, Action.outcome_modifyGet, Action.outcome_liftExcept,
    continueDeclaration] at hm ⊢
  rcases hfeed : (s.draft?.getD .idle).feed t with ⟨⟨e | f?, rest⟩, d⟩
  · rw [hfeed] at hm
    cases hm
  · rw [hfeed] at hm
    cases f? with
    | none =>
      have hopen : d.isOpen = true :=
        Draft.isOpen_of_feed (hbegun.imp_left isOpen_draft_of_isDeclaring) hfeed
      simp only [hopen, if_true] at hm
      cases hm
      have hfalse := hend rfl
      rw [isDeclaring_setDraft hs, Option.any_some, hopen] at hfalse
      cases hfalse
    | some f =>
      rw [Draft.feed_append hr hfeed]
      simp only [registerFunction_eq_change, Action.outcome_bind, Action.outcome_change] at hm ⊢
      rcases hregister :
        (s.setDraft (if d.isOpen then some d else none)).afterRegisterFunction f with e | v
      · rw [hregister] at hm
        cases hm
      · rw [hregister] at hm
        cases hm
        exact ⟨_, rfl, .lineOfItsOwn rest⟩

theorem repeats_proceed {rest rest' : Text} (h : Text.Trails r rest rest') :
    Action.Repeats (Outcome.Trails r) s (proceed rest) (proceed rest') :=
  .pure (.done .proceed h)

/-- What is done with the value of an expression is done with it in front of a trailer too. -/
theorem repeats_with_value (hr : IsTrailer r) (hrun : Runner.Genuine run)
    (h : Text.Trails r t t') (act : Quantity → Action Unit) :
    Action.Repeats (Outcome.Trails r) s
      (do
        let (value, rest) ← reading Expression.converted run t
        act value
        proceed rest)
      (do
        let (value, rest) ← reading Expression.converted run t'
        act value
        proceed rest) := by
  refine .bind (repeats_converted hr hrun h) fun {x x'} u hx => ?_
  obtain ⟨hvalue, hrest⟩ := hx
  simp only [hvalue]
  exact .same_bind _ fun _ _ => repeats_proceed hrest

/-- **Running a command in front of a trailer.** The name of a script has to end in front of it. -/
theorem repeats_run (hr : IsTrailer r) (hrun : Runner.Genuine run) {k : Keyword} (hk : k ≠ .func)
    (hread : k = .read → r.head? = some ';' ∨ ';' ∈ args) :
    Action.Repeats (Outcome.Trails r) s (Command.run run t args k)
      (Command.run run (t ++ r) (args ++ r) k) := by
  have htrails : Text.Trails r args (args ++ r) := .append args r
  cases k with
  | print =>
    refine .bind (repeats_reading hr hrun (Expression.closes_of_isTrailer hr)
      fun hgenuine hrepeats =>
        Expression.repeats_list (.trailer hr) hgenuine hrepeats htrails) fun {x x'} u hx => ?_
    obtain ⟨hvalue, hrest⟩ := hx
    simp only [hvalue]
    exact .same_bind _ fun _ _ => repeats_proceed hrest
  | var =>
    simp only [Command.run, Name.assignment?_of_trails hr htrails]
    cases Name.assignment? args with
    | none => exact .throw _ _
    | some x =>
      obtain ⟨path, expression⟩ := x
      exact repeats_with_value hr hrun (.append expression r) (define path)
  | unit =>
    simp only [Command.run, Name.assignment?_of_trails hr htrails]
    cases Name.assignment? args with
    | none => exact .throw _ _
    | some x =>
      obtain ⟨symbol, expression⟩ := x
      exact repeats_with_value hr hrun (.append expression r) (declareUnit symbol)
  | func => exact absurd rfl hk
  | returning =>
    refine .get_bind ?_
    by_cases hdepth : s.depth = 0
    · simp only [if_pos hdepth]
      exact .throw _ _
    · simp only [if_neg hdepth]
      refine .bind (repeats_converted hr hrun htrails) fun {x x'} u hx => ?_
      obtain ⟨hvalue, hrest⟩ := hx
      simp only [hvalue]
      exact .pure (.done _ hrest)
  | space =>
    simp only [Command.run, Name.path?_of_trails hr htrails]
    cases Name.path? args with
    | none => exact .throw _ _
    | some x => exact .same_bind _ fun _ _ => repeats_proceed (.append _ r)
  | remove =>
    simp only [Command.run, Name.path?_of_trails hr htrails]
    cases Name.path? args with
    | none => exact .throw _ _
    | some x => exact .same_bind _ fun _ _ => repeats_proceed (.append _ r)
  | read =>
    obtain ⟨hname, hrest⟩ := span_append (hread rfl)
    simp only [Command.run, hname, hrest]
    split
    · exact .throw _ _
    · refine .same_bind _ fun path? u => ?_
      cases path? with
      | none => exact .throw _ _
      | some path =>
        refine .same_bind _ fun value? v => ?_
        cases value? with
        | none => exact repeats_proceed (.append _ r)
        | some value => exact .pure (.done _ (.append _ r))
  | list => exact .same_bind _ fun _ _ => repeats_proceed htrails

theorem outcome_one (run : Runner) (s : Session) (t : Text) : (one run t).outcome s =
    (if s.isDeclaring then declaration t
    else if isOver (trimStart t) then proceed []
    else
      match Keyword.scan? (trimStart t), Name.assignment? (trimStart t) with
      | some (k, args), _ => Command.run run (trimStart t) args k
      | none, some (path, expression) => do
        let (value, rest) ← reading Expression.converted run expression
        assign path value
        proceed rest
      | none, none => do
        let (value, rest) ← reading Expression.converted run (trimStart t)
        modify fun s => s.write (s.format value)
        proceed rest).outcome s := rfl

/-- **A command that succeeds does so in front of a trailer too**, and the trailer is what follows
it, unless a script is read whose name goes on in the trailer, or a declaration is not finished. -/
theorem repeats_one (hr : IsTrailer r) (hrun : Runner.Genuine run) (hs : s.current < s.scopes.size)
    (hover : s.isDeclaring = false → isOver (trimStart t) = false)
    (hread : s.isDeclaring = false → ∀ args, Keyword.scan? (trimStart t) = some (.read, args) →
      r.head? = some ';' ∨ ';' ∈ args) {o : Outcome}
    (hm : (one run t).outcome s = .ok (.ok o, u))
    (hend : o = .done .proceed [] → u.isDeclaring = false) :
    ∃ o', (one run (t ++ r)).outcome s = .ok (.ok o', u) ∧ Outcome.Trails r o o' := by
  rw [outcome_one] at hm ⊢
  by_cases hdeclaring : s.isDeclaring = true
  · rw [if_pos hdeclaring] at hm ⊢
    exact repeats_declaration hr hs (.inl hdeclaring) hm hend
  · have hfalse : s.isDeclaring = false := by simpa using hdeclaring
    have hnot := hover hfalse
    have hread := hread hfalse
    obtain ⟨c, v, ht, ht'⟩ : ∃ c v, trimStart t = c :: v ∧ trimStart (t ++ r) = c :: v ++ r := by
      rcases (Text.Trails.append t r).cases with ⟨hnil, -⟩ | ⟨c, v, ht, ht'⟩
      · rw [hnil] at hnot
        cases hnot
      · exact ⟨c, v, ht, ht'⟩
    rw [ht] at hnot hread hm
    have hnot' : isOver (c :: v ++ r) = false := (isOver_append_of_cons hr.isBreak c v).trans hnot
    have htrim : trimStart (c :: v) = c :: v := by rw [← ht, trimStart_trimStart]
    rw [ht', if_neg hdeclaring, if_neg (by simpa using hnot'), Keyword.scan?_append hr,
      Name.assignment?_of_trails hr (.append (c :: v) r)]
    rw [if_neg hdeclaring, if_neg (by simpa using hnot)] at hm
    cases hkeyword : Keyword.scan? (c :: v) with
    | some x =>
      obtain ⟨k, args⟩ := x
      rw [hkeyword] at hm
      by_cases hk : k = .func
      · subst hk
        refine repeats_declaration hr hs (.inr ?_) hm hend
        rw [htrim]
        exact hnot
      · refine repeats_run hr hrun hk (fun hk => ?_) hm
        subst hk
        exact hread args hkeyword
    | none =>
      rw [hkeyword] at hm
      cases hassignment : Name.assignment? (c :: v) with
      | some x =>
        obtain ⟨path, expression⟩ := x
        rw [hassignment] at hm
        have hrepeats := repeats_with_value (s := s) hr hrun (.append expression r) fun value =>
          assign path value
        exact hrepeats hm
      | none =>
        rw [hassignment] at hm
        have hrepeats := repeats_with_value (s := s) hr hrun (.append (c :: v) r) fun value =>
          modify fun s => s.write (s.format value)
        exact hrepeats hm

end Command

end QuantityCalc
