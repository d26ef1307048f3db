import QuantityCalc.Proofs.Run.Reachable
import QuantityCalc.Proofs.Twin.Commands

/-!
# Lexical scope

The body of a function sees the scope that the function was declared in and the scopes around it.
Within a call, the scope that holds the arguments of this call is not among them, unless the called
function was declared there. So what else that scope binds makes no difference to the call
(`outcome_callFunction_rebind`): the scope is behind the veil of the accord `Accord.lexical`.

No namespace is such a scope, so no path leads there: the numbers of namespaces are new when they
are declared, and the scope of a call has no name (`private_of_reachable`).
-/

namespace QuantityCalc

namespace Session

variable {s s' t t' : Session} {p c : Nat} {f : Frame} {fs : List Frame} {m : String}
  {items items' : Std.TreeMap String Item}

/-! ## Scopes without a name -/

/-- A scope is there, and it is not the scope of a namespace. -/
structure Private (c : Nat) (s : Session) : Prop where
  valid : Valid s
  lt_size : c < s.scopes.size
  unnamed : ∀ (p : Nat) (name : String), s.item? p name ≠ some (.space c)

/-- A move makes a namespace only with the number of a new scope. -/
theorem item?_of_move {q : Nat} (h : Move s t) (hitem : t.item? p m = some (.space q)) :
    s.item? p m = some (.space q) ∨ q = s.scopes.size := by
  cases h with
  | write line => exact Or.inl hitem
  | draft hopen => exact Or.inl (item?_setDraft _ ▸ hitem)
  | @bind scope name item h =>
    rcases item?_insert hitem with ⟨-, -, heq⟩ | hitem
    · subst heq
      cases h
    · exact Or.inl hitem
  | register d _ _ => exact Or.inl hitem
  | @space scope name hscope hfloor =>
    rcases item?_pushScope hitem with ⟨-, hitem⟩ | hitem
    · simp at hitem
    · rcases item?_insert hitem with ⟨-, -, heq⟩ | hitem
      · exact Or.inr (Item.space.inj heq)
      · exact Or.inl hitem
  | erase scope name => exact Or.inl (item?_erase hitem)

theorem item?_of_enter {name : String} {parent q : Nat} {args : List (String × Quantity)}
    (h : (s.enter name parent args).item? p m = some (.space q)) :
    s.item? p m = some (.space q) := by
  rcases item?_enter_cases h with ⟨arg, -, heq⟩ | hold
  · cases heq
  · exact hold

/-- **A scope that is there and has no name gets none.** -/
theorem invariant_private (c : Nat) : Invariant (Private c) where
  move hs h := by
    have he := evolves_of_move h
    refine ⟨valid_of_move hs.valid h, Nat.lt_of_lt_of_le hs.lt_size he.size_le, fun p m hitem => ?_⟩
    rcases item?_of_move h hitem with hitem | heq
    · exact hs.unnamed p m hitem
    · exact Nat.ne_of_lt hs.lt_size heq
  enter hs hcaller hlt := by
    refine ⟨invariant_valid.enter hs.valid hcaller hlt, ?_, fun p m hitem => ?_⟩
    · rw [enter, Array.size_push]
      exact Nat.lt_succ_of_lt hs.lt_size
    · exact hs.unnamed p m (item?_of_enter hitem)
  leave hs he ht := by
    refine ⟨valid_leave hs.valid he ht.valid, ?_, fun p m hitem => ?_⟩
    · rw [(evaluates_of_call he).size_eq]
      exact hs.lt_size
    · exact ht.unnamed p m (item?_leave hitem).2

/-- **The scope of the innermost call has no name.** -/
theorem private_of_reachable (h : Reachable (f :: fs) s) : Private s.current s := by
  cases stack_of_reachable h with
  | @call _ u _ name parent args _ hu he hs =>
    refine ⟨hs, hs.current, fun p m hitem => ?_⟩
    have hcurrent : s.current = u.scopes.size := he.current
    have hpos : s.current ≠ global :=
      hcurrent ▸ Nat.ne_of_gt (Nat.lt_of_le_of_lt (Nat.zero_le _) hu.current)
    -- a namespace of this scope would stand in its parent, which was there before the call
    obtain ⟨found, hfound, hparent⟩ : ∃ found, s.scopes[s.current]? = some found ∧
        found.parent? = some p := by
      cases hs.item hitem with
      | space hfound hparent => exact ⟨_, hfound, hparent⟩
    obtain ⟨q, hq, heq⟩ := hs.parent hfound hpos
    rw [hparent] at heq
    cases heq
    have hold := he.space (show p < u.scopes.size from hcurrent ▸ hq) hitem
    cases hu.item (item?_of_enter hold) with
    | space hfound' _ =>
      rw [hcurrent, Array.getElem?_eq_none (Nat.le_refl _)] at hfound'
      cases hfound'

/-! ## Other items in one scope -/

/-- The session with other items in one scope. -/
def rebind (s : Session) (scope : Nat) (items : Std.TreeMap String Item) : Session :=
  s.modifyScope scope fun found => { found with items := items }

end Session

open Session

/-- The accord of two runs that differ in what stands behind a veil, and in nothing else. -/
def Accord.lexical (v : Veil) : Accord where
  holds := Private v.scope
  admits _ _ := True
  errors := True
  exact := True
  excused _ := False
  shared _ := True
  veil? := some v
  invariant := invariant_private v.scope
  unseen _ _ := trivial
  script _ _ _ := trivial
  body _ _ := trivial
  veiled hs w hw := by
    cases hw
    exact ⟨hs.valid, hs.unnamed⟩

theorem not_hides_lexical {v : Veil} (h : p ≠ v.scope) : ¬(Accord.lexical v).Hides p := by
  rintro ⟨w, hw, heq⟩
  cases hw
  exact h heq

theorem visible_lexical {v : Veil} (h : v.scope ∉ s.chain p) : (Accord.lexical v).Visible s p := by
  intro q hq
  exact not_hides_lexical fun heq => h (heq ▸ hq)

/-- Other items stand behind the veil of a session that they are bound in. -/
theorem resembles_rebind {found : Scope} (h : s.scopes[c]? = some found)
    (items : Std.TreeMap String Item) :
    Resembles (.lexical ⟨c, found.items, items⟩) s (s.rebind c items) := by
  refine ⟨rfl, rfl, rfl, rfl, rfl, .refl s.options, size_modifyScope _, fun {p} hp => ?_,
    fun v hv => ?_, rfl, fun _ => rfl⟩
  · have hne : c ≠ p := fun heq => hp ⟨_, rfl, heq.symm⟩
    rw [rebind, scopes_modifyScope, if_neg hne]
  · cases hv
    refine ⟨found, h, ?_⟩
    rw [rebind, scopes_modifyScope, if_pos rfl, h, Option.map_some]

/-- Sessions that differ behind a veil differ in the items there, and these are as they were. -/
theorem eq_rebind_of_resembles (h : Resembles (.lexical ⟨c, items, items'⟩) t t') :
    t' = t.rebind c items' ∧ (t.scopes[c]?).map (·.items) = some items := by
  obtain ⟨found, hfound, hfound'⟩ := h.veil _ rfl
  have hscopes : t'.scopes = (t.rebind c items').scopes := by
    refine Array.ext_getElem? fun p => ?_
    rw [rebind, scopes_modifyScope]
    by_cases hp : p = c
    · subst hp
      rw [if_pos rfl, hfound, hfound', Option.map_some]
    · rw [if_neg (Ne.symm hp), h.scope (not_hides_lexical hp)]
  refine ⟨?_, by rw [hfound, Option.map_some]⟩
  have hcurrent := h.current
  have hdepth := h.depth
  have hfloor := h.floor
  have hsystem := h.system
  have hfiles := h.files
  have hoptions := h.options.eq trivial trivial
  have houtput := h.output trivial
  obtain ⟨scopes', system', current', depth', floor', options', output', files'⟩ := t'
  simp only at hscopes hcurrent hdepth hfloor hsystem hfiles hoptions houtput
  subst hscopes hcurrent hdepth hfloor hsystem hfiles hoptions houtput
  rfl

/-! ## Calls -/

/-- A step ends the same way in both sessions, and they resemble each other still. -/
def Action.Echoes {α : Type} (A : Accord) (s s' : Session) (m : Action α) : Prop :=
  match m.outcome s with
  | .ok (a, t) => ∃ t', m.outcome s' = .ok (a, t') ∧ Resembles A t t'
  | .error h => m.outcome s' = .error h

theorem echoes_inFrame {v : Veil} (h : Resembles (.lexical v) s s') (hs : Private v.scope s)
    {name : String} {parent : Nat} (hcaller : Caller s name parent)
    (hparent : (Accord.lexical v).Visible s parent) (args : List (String × Quantity)) (budget : Nat)
    (ls : List String) :
    Action.Echoes (.lexical v) s s' (inFrame name parent args (activation budget ls)) := by
  have hlimit : s'.options = s.options := h.options.eq trivial trivial
  rw [Action.Echoes]
  rcases Nat.lt_or_ge s.depth s.options.maxCallDepth with hlt | hge
  · have hlt' : s'.depth < s'.options.maxCallDepth := by rwa [h.depth, hlimit]
    have hrun : Runner.Follows (.lexical v) (activation budget) (activation budget) :=
      follows_activation (Nat.le_refl _) (Or.inr ⟨trivial, rfl⟩)
    have henter : Alike (.lexical v) (s.enter name parent args) (s'.enter name parent args) :=
      h.enter hparent ((invariant_private v.scope).enter hs hcaller hlt)
    have hfollows : Action.Follows (.lexical v) (s.enter name parent args)
        (s'.enter name parent args) (activation budget ls) (activation budget ls) :=
      hrun.follows henter trivial
    rw [outcome_inFrame _ hlt, outcome_inFrame _ hlt']
    rcases hbody : (activation budget ls).outcome (s.enter name parent args) with e | ⟨r, t⟩
    · rcases hfollows.halt hbody with hexcused | ⟨-, hbody'⟩
      · exact absurd hexcused id
      · simp only [hbody']
    · obtain ⟨t', hbody', ht⟩ := hfollows.ok hbody (Or.inl trivial)
      have he : Evolves (s.enter name parent args) t := ((hrun.conforms ls trivial).2 hbody).1
      simp only [hbody']
      exact ⟨_, rfl, h.leave (size_le_of_call he) ht.toResembles⟩
  · have hge' : s'.options.maxCallDepth ≤ s'.depth := by rwa [h.depth, hlimit]
    rw [outcome_inFrame_of_le _ hge, outcome_inFrame_of_le _ hge', hlimit]
    exact ⟨s', rfl, h⟩

theorem echoes_callUser {v : Veil} (h : Resembles (.lexical v) s s') (hs : Private v.scope s)
    {g : UserFunction} {q : Nat} (hcaller : Caller s g.name q)
    (hq : (Accord.lexical v).Visible s q) (args : List Quantity) (budget : Nat) :
    Action.Echoes (.lexical v) s s' (callUser (activation budget) g q args) := by
  rw [Action.Echoes]
  by_cases harity : args.length = g.parameters.length
  · simp only [callUser, harity, ne_eq, not_true_eq_false, if_false, Action.outcome_bind,
      Action.outcome_get, Action.outcome_except, h.bindArguments_eq]
    rcases s.bindArguments g g.parameters args with e | bound
    · exact ⟨s', rfl, h⟩
    · have hframe := echoes_inFrame h hs hcaller hq bound budget g.body
      rw [Action.Echoes] at hframe
      simp only
      rcases hout : (inFrame g.name q bound (activation budget g.body)).outcome s with e | ⟨r, t⟩
      · rw [hout] at hframe
        simp only [hframe]
      · rw [hout] at hframe
        obtain ⟨t', hout', ht⟩ := hframe
        simp only [hout']
        cases r with
        | ok value? => exact ⟨t', rfl, ht⟩
        | error e => exact ⟨t', rfl, ht⟩
  · simp only [callUser, harity, ne_eq, not_false_eq_true, if_true, Action.outcome_bind,
      Action.outcome_throw]
    exact ⟨s', rfl, h⟩

theorem echoes_callFunction {v : Veil} (h : Resembles (.lexical v) s s') (hs : Private v.scope s)
    (hp : (Accord.lexical v).Visible s p) (name : String) (args : List Quantity) (budget : Nat) :
    Action.Echoes (.lexical v) s s' (callFunction budget (.scope p) name args) := by
  have hhome : (Accord.lexical v).Sees s (.scope p) := hp
  have hfunction := h.function?_eq hhome name
  rcases hf : s.function? (.scope p) name with _ | ⟨g, q⟩
  · rw [hf] at hfunction
    rw [Action.Echoes]
    simp only [callFunction, call, Action.outcome_bind, Action.outcome_get, hf, hfunction,
      Action.outcome_throw]
    exact ⟨s', rfl, h⟩
  · rw [hf] at hfunction
    have hq : (Accord.lexical v).Visible s q := sees_of_function? hhome hs hf
    have huser := echoes_callUser h hs (.function hf) hq args budget
    rw [Action.Echoes] at huser ⊢
    simp only [callFunction, call, Action.outcome_bind, Action.outcome_get, hf, hfunction]
    exact huser

/-- **Functions see the scope that they were declared in**, and not the scope of their caller.
Within a call, let a function be called that neither the scope of this call nor a scope below it
declares. Whatever the scope of this call binds, the outcome is the same, and so is what becomes of
everything else, and the items of that scope stay as they are. -/
theorem outcome_callFunction_rebind (h : Reachable (f :: fs) s) (hp : s.current ∉ s.chain p)
    (name : String) (args : List Quantity) (budget : Nat) (items : Std.TreeMap String Item) :
    (callFunction budget (.scope p) name args).outcome (s.rebind s.current items) =
        ((callFunction budget (.scope p) name args).outcome s).map
          (fun (r, t) => (r, t.rebind s.current items)) ∧
      ∀ {r : Except Error Quantity} {t : Session},
        (callFunction budget (.scope p) name args).outcome s = .ok (r, t) →
          (t.scopes[s.current]?).map (·.items) = (s.scopes[s.current]?).map (·.items) := by
  have hs := private_of_reachable h
  have hfound := Array.getElem?_eq_getElem hs.lt_size
  have hcall := echoes_callFunction (resembles_rebind hfound items) hs (visible_lexical hp) name
    args budget
  rw [Action.Echoes] at hcall
  rcases hout : (callFunction budget (.scope p) name args).outcome s with e | ⟨r, t⟩
  · rw [hout] at hcall
    exact ⟨hcall, fun h => by cases h⟩
  · rw [hout] at hcall
    obtain ⟨t', hout', ht⟩ := hcall
    obtain ⟨rfl, hitems⟩ := eq_rebind_of_resembles ht
    refine ⟨hout', fun {r' u} heq => ?_⟩
    cases heq
    rw [hitems, hfound, Option.map_some]

/-- A session that knows a function without parameters. -/
def outerSample : Session := { Entry.sample with options := {}, files := .unknown }

/-- The session within a call of that function, which can be called again. -/
def innerSample : Session := outerSample.enter "f" global []

theorem outcome_callFunction_rebind_sample :
    ∃ t, Reachable [outerSample.frame] innerSample ∧
      innerSample.current ∉ innerSample.chain global ∧
      (callFunction 1 (.scope global) "f" []).outcome innerSample = .ok (.ok (.ofBool false), t) ∧
      (callFunction 1 (.scope global) "f" []).outcome
          (innerSample.rebind 1 (.ofList [("x", Item.var (.ofBool true))])) =
        .ok (.ok (.ofBool false), t.rebind 1 (.ofList [("x", Item.var (.ofBool true))])) := by
  have hregistered : Reachable [] Entry.sample :=
    (Reachable.start _ _).step (.function _ registerFunction_sample)
  have houter : outerSample.function? (.scope global) "f" = some (⟨"f", [], []⟩, global) :=
    Entry.function?_sample
  have hreachable : Reachable [outerSample.frame] innerSample :=
    (hregistered.configure {} .unknown).enter (.function houter) (by decide) []
  have hchain : innerSample.current ∉ innerSample.chain global := by
    rw [chain_global (stack_of_reachable hreachable).valid]
    decide
  have hcall : ∃ t, (callFunction 1 (.scope global) "f" []).outcome innerSample =
      .ok (.ok (.ofBool false), t) := by
    have hfunction : innerSample.function? (.scope global) "f" = some (⟨"f", [], []⟩, global) :=
      Entry.function?_sample
    have hbody : ∃ t, (activation 1 []).outcome (innerSample.enter "f" global []) =
        .ok (.ok none, t) := ⟨_, rfl⟩
    have hbind : innerSample.bindArguments ⟨"f", [], []⟩ [] [] = .ok [] := rfl
    have hdepth : innerSample.depth < innerSample.options.maxCallDepth := by decide
    obtain ⟨t, ht⟩ := hbody
    refine ⟨t.leave innerSample.frame, ?_⟩
    simp only [callFunction, call, callUser, Action.outcome_bind, Action.outcome_get, hfunction,
      List.length_nil, ne_eq, not_true_eq_false, if_false, hbind, Action.outcome_except,
      outcome_inFrame _ hdepth, ht, Action.outcome_pure, Option.getD_none]
  obtain ⟨t, ht⟩ := hcall
  obtain ⟨hrebind, -⟩ := outcome_callFunction_rebind hreachable hchain "f" [] 1
    (.ofList [("x", Item.var (.ofBool true))])
  rw [ht] at hrebind
  exact ⟨t, hreachable, hchain, ht, hrebind⟩

end QuantityCalc
