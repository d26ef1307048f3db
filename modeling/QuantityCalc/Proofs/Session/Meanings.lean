import QuantityCalc.Interpreter
import QuantityCalc.Proofs.Label.System
import QuantityCalc.Proofs.Run.Invariants
import QuantityCalc.Proofs.Session.Paths

/-!
# Meanings and what they stand for

Names are classified by `Session.meaning?` and `Session.meaningIn?`, and items are fetched by
`Session.valueAt?`, `Session.unit?`, `Session.function?` and the built-in functions. The meaning of
a name is fetched (`Session.Fetches`) if what its kind promises is found at its home.

An item that a scope binds is fetched because it is sound (`fetches_of_item?`), and a registered
unit because units are convertible to nothing but units that were registered before them
(`ordered_of_reachable`). So in every reachable session what a dotted name stands for is fetched,
segment by segment (`fetches_of_meanings`).
-/

namespace QuantityCalc.Session

variable {s t : Session} {fs : List Frame} {p : Nat} {name : String} {item : Item} {home : Home}
  {m : Meaning}

/-- Whether a function of a name is kept at a home. -/
def HasFunction (s : Session) (home : Home) (name : String) : Prop :=
  (home = .builtins ∧ ∃ f, Builtin.ofName? name = some f) ∨
    ∃ f scope, s.function? home name = some (f, scope)

/-- What the meaning of a name promises is found at its home. -/
structure Fetches (s : Session) (name : String) (m : Meaning) : Prop where
  var : m.kind = .var → ∃ value, s.valueAt? m.home name = some value
  unit : m.kind = .unit → ∃ u, s.unit? m.home name = some u
  function : m.kind = .function → s.HasFunction m.home name
  space : m.kind = .space → ∃ p < s.scopes.size, m.home = .scope p
  unitSystem : m.kind = .unitSystem → m.home = .system

/-! ## The units of reachable sessions -/

/-- **Units are registered after the units that they are convertible to**, whatever happens. -/
theorem invariant_ordered : Invariant fun s => s.system.Ordered where
  move hs h := by
    cases h with
    | register d _ hprimary =>
      refine Registry.Ordered.push hs fun primary hmem => ?_
      cases hkind : d.kind with
      | convertible p factor offset =>
        rw [hkind] at hmem
        cases hmem
        exact hprimary hkind
      | _ =>
        rw [hkind] at hmem
        cases hmem
    | _ => exact hs
  enter hs _ _ := hs
  leave _ _ ht := ht

theorem ordered_of_reachable (h : Reachable fs s) : s.system.Ordered :=
  invariant_ordered.of_reachable (fun _ _ => UnitSystem.ordered_international) (fun _ _ hs => hs) h

/-! ## Fetching -/

/-- **An item that a scope binds is fetched from where it is classified.** -/
theorem fetches_of_item? (hs : Valid s) (hunits : s.system.Ordered)
    (h : s.item? p name = some item) : Fetches s name (.ofItem p item) := by
  cases hs.item h with
  | var value =>
    have hfetch : s.valueAt? (.scope p) name = some value := by simp only [valueAt?, itemAt?, h]
    constructor <;> rintro ⟨⟩
    exact ⟨value, hfetch⟩
  | function f =>
    have hfetch : s.function? (.scope p) name = some (f, p) := by
      simp only [function?, itemAt?, h]
    constructor <;> rintro ⟨⟩
    exact .inr ⟨f, p, hfetch⟩
  | @unit id d hd hsymbol =>
    obtain ⟨u, hu⟩ := Registry.exists_unit? hunits (Array.getElem?_eq_some_iff.1 hd).1
    have hfetch : s.unit? (.scope p) name = some u := by simp only [unit?, itemAt?, h, hu]
    constructor <;> rintro ⟨⟩
    exact ⟨u, hfetch⟩
  | unitSystem hname =>
    constructor <;> rintro ⟨⟩
    rfl
  | @space id found hfound hparent =>
    have hlt := (Array.getElem?_eq_some_iff.1 hfound).1
    constructor <;> rintro ⟨⟩
    exact ⟨id, hlt, rfl⟩

theorem fetches_builtin (h : (Builtin.ofName? name).isSome = true) :
    Fetches s name ⟨.function, .builtins⟩ := by
  constructor <;> rintro ⟨⟩
  exact .inl ⟨rfl, Option.isSome_iff_exists.1 h⟩

theorem fetches_symbol (h : s.system.contains name = true) : Fetches s name ⟨.unit, .system⟩ := by
  constructor <;> rintro ⟨⟩
  exact Option.isSome_iff_exists.1 h

theorem fetches_of_meaning? (hs : Valid s) (hunits : s.system.Ordered)
    (h : s.meaning? name = some m) : Fetches s name m := by
  unfold meaning? at h
  split at h
  next scope item hfind =>
    cases h
    exact fetches_of_item? hs hunits (item?_of_find? hfind).2
  next =>
    split at h
    next hbuiltin =>
      cases h
      exact fetches_builtin hbuiltin
    next =>
      split at h
      next hsymbol =>
        cases h
        exact fetches_symbol hsymbol
      next => cases h

theorem fetches_of_meaningIn? (hs : Valid s) (hunits : s.system.Ordered)
    (h : s.meaningIn? home name = some m) : Fetches s name m := by
  cases home with
  | scope scope =>
    obtain ⟨item, hitem, rfl⟩ := Option.map_eq_some_iff.1 h
    exact fetches_of_item? hs hunits hitem
  | system =>
    obtain ⟨hsymbol, h⟩ := Option.ite_none_right_eq_some.1 h
    cases h
    exact fetches_symbol hsymbol
  | builtins =>
    obtain ⟨hbuiltin, h⟩ := Option.ite_none_right_eq_some.1 h
    cases h
    exact fetches_builtin hbuiltin

/-- The last meaning behind one that is fetched is fetched. -/
theorem fetches_of_inner (hs : Valid s) (hunits : s.system.Ordered) {last : String}
    {m? : Option Meaning} {more : List String} (hfirst : ∀ m ∈ m?, Fetches s name m)
    (hlast : (name :: more).getLast? = some last)
    (h : (m? :: meanings.inner s m? more).getLast? = some (some m)) : Fetches s last m := by
  induction more generalizing name m? with
  | nil =>
    cases hlast
    exact hfirst m (Option.some.inj h)
  | cons next more ih =>
    rw [List.getLast?_cons_cons] at hlast
    rw [meanings.inner, List.getLast?_cons_cons] at h
    refine ih (fun m' hm' => ?_) hlast h
    obtain ⟨outer, -, hmeaning⟩ := Option.bind_eq_some_iff.1 hm'
    exact fetches_of_meaningIn? hs hunits hmeaning

/-! ## Calls of functions that are found -/

/-- An outcome that is no complaint about a name. -/
def Known {α : Type} (r : Except Error α) : Prop := ∀ path, r ≠ .error (.unknownName path)

namespace Known

variable {α β : Type} {r : Except Error α}

theorem mapError {f : UnitError → Error} (hf : ∀ e path, f e ≠ .unknownName path)
    (r : Except UnitError α) : Known (r.mapError f) := by
  cases r with
  | ok a => exact fun _ => nofun
  | error e => exact fun path heq => hf e path (Except.error.inj heq)

theorem unit (r : Except UnitError α) : Known (r.mapError .unit) :=
  mapError (fun _ _ heq => by cases heq) r

theorem bind {f : α → Except Error β} (h : Known r) (hf : ∀ a, Known (f a)) : Known (r >>= f) := by
  cases r with
  | ok a => exact hf a
  | error e =>
    intro path heq
    cases heq
    exact h path rfl

theorem extreme (beats : Ordering) (q : Quantity) (qs : List Quantity) :
    Known (Builtin.extreme beats q qs) := by
  induction qs generalizing q with
  | nil => exact fun _ => nofun
  | cons p qs ih =>
    refine .bind (.unit _) fun order => ?_
    split
    · exact ih p
    · exact ih q

theorem ofPlain (g : Float → Float) (q : Quantity) : Known (Builtin.ofPlain g q) := by
  unfold Builtin.ofPlain
  split
  · exact fun _ => nofun
  · exact fun _ => nofun

/-- Built-in functions look up no names. -/
theorem builtin (f : Builtin) (args : List Quantity) : Known (f.call args) := by
  unfold Builtin.call
  split
  next q qs =>
    split
    · cases f with
      | abs | round | floor | ceil => exact fun _ => nofun
      | sqrt => exact .unit _
      | min => exact .extreme .lt q qs
      | max => exact .extreme .gt q qs
      | _ => exact .ofPlain _ q
    · exact fun _ => nofun
  next => exact fun _ => nofun

theorem bindArguments (s : Session) (f : UserFunction) (ps : List Parameter)
    (args : List Quantity) : Known (s.bindArguments f ps args) := by
  induction ps generalizing args with
  | nil => exact fun _ => nofun
  | cons p ps ih =>
    cases args with
    | nil => exact fun _ => nofun
    | cons q qs =>
      have hrest (value : Quantity) : Known (s.bindArguments f ps qs >>= fun rest =>
          pure ((p.name, value) :: rest)) := (ih qs).bind fun _ _ => nofun
      rw [Session.bindArguments]
      cases p.unit? with
      | none => exact hrest q
      | some unit =>
        refine .bind (.unit _) fun target => ?_
        exact (mapError (fun _ _ heq => by cases heq) (q.convert target)).bind hrest

end Known

/-- A call of a function of command lines answers that a name is unknown only if the body of the
function ends with this answer, run in the frame of the call. -/
theorem unknownName_of_callUser {run : Runner} {f : UserFunction} {scope : Nat}
    {args : List Quantity} {unknown : String}
    (h : (callUser run f scope args).outcome s = .ok (.error (.unknownName unknown), t)) :
    ∃ bound u, s.bindArguments f f.parameters args = .ok bound ∧
      (run f.body).outcome (s.enter f.name scope bound) =
        .ok (.error (.unknownName unknown), u) ∧ t = u.leave s.frame := by
  rw [callUser] at h
  split at h
  · cases h
  · simp only [Action.outcome_bind, Action.outcome_get, Action.outcome_except] at h
    cases hbound : s.bindArguments f f.parameters args with
    | error e =>
      rw [hbound] at h
      cases h
      exact absurd hbound (Known.bindArguments s f f.parameters args unknown)
    | ok bound =>
      rw [hbound] at h
      simp only at h
      rcases Nat.lt_or_ge s.depth s.options.maxCallDepth with hlt | hge
      · rw [outcome_inFrame _ hlt] at h
        rcases hbody : (run f.body).outcome (s.enter f.name scope bound) with halt | ⟨e | value?, u⟩
        · rw [hbody] at h
          cases h
        · rw [hbody] at h
          cases h
          exact ⟨bound, u, rfl, hbody, rfl⟩
        · rw [hbody] at h
          cases h
      · simp only [inFrame, Action.outcome_bind, Action.outcome_get, hge, if_true,
          Action.outcome_throw] at h
        cases h

/-- **A call of a function that is there does not answer that a name is unknown**, unless the body
of the function does. -/
theorem unknownName_of_call {run : Runner} {args : List Quantity} {unknown : String}
    (hfound : s.HasFunction home name)
    (h : (call run home name args).outcome s = .ok (.error (.unknownName unknown), t)) :
    ∃ f scope bound u, s.function? home name = some (f, scope) ∧
      s.bindArguments f f.parameters args = .ok bound ∧
      (run f.body).outcome (s.enter f.name scope bound) =
        .ok (.error (.unknownName unknown), u) ∧ t = u.leave s.frame := by
  rcases hfound with ⟨rfl, f, hf⟩ | ⟨f, scope, hf⟩
  · simp only [call, hf, Action.outcome_except, Except.ok.injEq, Prod.mk.injEq] at h
    exact absurd h.1 (Known.builtin f args unknown)
  · have hcall : (call run home name args).outcome s = (callUser run f scope args).outcome s := by
      unfold call
      split
      · cases hf
      · simp only [Action.outcome_bind, Action.outcome_get, hf]
    rw [hcall] at h
    obtain ⟨bound, u, hbound, hbody, ht⟩ := unknownName_of_callUser h
    exact ⟨f, scope, bound, u, hf, hbound, hbody, ht⟩

/-- **Classification and retrieval never disagree.** If the segments of a dotted name are looked up
one by one in a reachable session, also within calls, and the last one has a meaning, then what the
meaning promises is found at its home: the value of a variable, the unit of a symbol, a function,
the scope of a namespace, or the system of units. A call of the function that is found does not
answer that a name is unknown, unless its body does. -/
theorem fetches_of_meanings (h : Reachable fs s) {path : List String}
    (hname : path.getLast? = some name) (hm : (s.meanings path).getLast? = some (some m)) :
    Fetches s name m ∧
      (m.kind = .function → ∀ (budget : Nat) (args : List Quantity) {unknown : String}
        {t : Session}, (callFunction budget m.home name args).outcome s =
          .ok (.error (.unknownName unknown), t) →
        ∃ f scope bound u, s.function? m.home name = some (f, scope) ∧
          s.bindArguments f f.parameters args = .ok bound ∧
          (activation budget f.body).outcome (s.enter f.name scope bound) =
            .ok (.error (.unknownName unknown), u) ∧ t = u.leave s.frame) := by
  have hs := (stack_of_reachable h).valid
  have hunits := ordered_of_reachable h
  have hfetches : Fetches s name m := by
    cases path with
    | nil => cases hname
    | cons first more =>
      exact fetches_of_inner hs hunits (fun m' hm' => fetches_of_meaning? hs hunits hm') hname hm
  exact ⟨hfetches, fun hkind _ _ => unknownName_of_call (hfetches.function hkind)⟩

/-- A variable in a namespace, and a unit with a prefix in the system of units. -/
theorem fetches_of_meanings_sample : ∃ s, Reachable [] s ∧
    (s.meanings ["a", "b"]).getLast? = some (some ⟨.var, .scope 1⟩) ∧
    (∃ value, s.valueAt? (.scope 1) "b" = some value) ∧
    (s.meanings ["SI", "km"]).getLast? = some (some ⟨.unit, .system⟩) ∧
    ∃ u, s.unit? .system "km" = some u := by
  have hok : (do
      let (_, s₁) ← (start {} .unknown).afterDeclareNamespace "a"
      let s₂ ← s₁.afterDefine "a.b" (.plain 2)
      if (s₂.meanings ["a", "b"]).getLast? = some (some (Meaning.mk .var (.scope 1))) ∧
          (s₂.meanings ["SI", "km"]).getLast? = some (some (Meaning.mk .unit .system)) then pure s₂
      else throw Error.emptyExpression).isOk = true := by decide +kernel
  obtain ⟨_, hwhole⟩ := Except.exists_of_isOk hok
  obtain ⟨⟨id, s₁⟩, hspace, hwhole⟩ := Except.bind_eq_ok.1 hwhole
  obtain ⟨s₂, hdefine, hwhole⟩ := Except.bind_eq_ok.1 hwhole
  have hspace' : Reachable [] s₁ :=
    (Reachable.start {} .unknown).step (.space "a" ((outcome_declareNamespace_eq_ok ..).2 hspace))
  have hreach : Reachable [] s₂ :=
    hspace'.step (.define "a.b" _ ((outcome_define_eq_ok ..).2 hdefine))
  split at hwhole
  · rename_i hmeanings
    obtain ⟨hvar, hunit⟩ := hmeanings
    refine ⟨s₂, hreach, hvar, ?_, hunit, ?_⟩
    · exact (fetches_of_meanings hreach rfl hvar).1.var rfl
    · exact (fetches_of_meanings hreach rfl hunit).1.unit rfl
  · cases hwhole

end QuantityCalc.Session
