import QuantityCalc.Proofs.Session.Moves
import QuantityCalc.Session.Calls
import Mathlib.Order.Defs.Unbundled

/-!
# What a run leaves as it was

`Evolves s t` is what commands keep: the current scope, the depth of calls, the first scope of the
innermost call, the options, the registered units, and the scopes that were there with their names
and their parents. Only the current scope may have another declaration in progress, and the scopes
below the innermost call get no namespaces. `Evaluates s t` is what reading expressions keeps
besides: there are no more scopes, and no declaration in progress has changed.

Moves are of the first kind (`evolves_of_move`). When a call ends, what commands did in its frame
has become of the second kind (`evaluates_of_call`).
-/

namespace QuantityCalc.Session

variable {s t u : Session} {p q : Nat} {name m : String}

/-- What commands keep. -/
structure Evolves (s t : Session) : Prop where
  current : t.current = s.current
  depth : t.depth = s.depth
  floor : t.floor = s.floor
  options : t.options = s.options
  system : t.system.name = s.system.name
  unit : ∀ {id : Nat} {d : UnitDefinition}, s.system.definitions[id]? = some d →
    t.system.definitions[id]? = some d
  size_le : s.scopes.size ≤ t.scopes.size
  scope : ∀ {p : Nat} {found : Scope}, s.scopes[p]? = some found → ∃ found',
    t.scopes[p]? = some found' ∧ found'.name = found.name ∧ found'.parent? = found.parent? ∧
      (p ≠ s.current → found'.draft? = found.draft?)
  space : ∀ {p id : Nat} {name : String}, p < s.floor → t.item? p name = some (.space id) →
    s.item? p name = some (.space id)

/-- What reading expressions keeps. -/
structure Evaluates (s t : Session) : Prop extends Evolves s t where
  size_eq : t.scopes.size = s.scopes.size
  draft : ∀ {p : Nat} {found found' : Scope}, s.scopes[p]? = some found →
    t.scopes[p]? = some found' → found'.draft? = found.draft?

theorem Evolves.refl (s : Session) : Evolves s s :=
  ⟨rfl, rfl, rfl, rfl, rfl, id, Nat.le_refl _, fun h => ⟨_, h, rfl, rfl, fun _ => rfl⟩,
    fun _ h => h⟩

theorem Evolves.trans (h : Evolves s t) (h' : Evolves t u) : Evolves s u := by
  refine ⟨h'.current.trans h.current, h'.depth.trans h.depth, h'.floor.trans h.floor,
    h'.options.trans h.options, h'.system.trans h.system, h'.unit ∘ h.unit,
    Nat.le_trans h.size_le h'.size_le, fun hp => ?_,
    fun hfloor hitem => h.space hfloor (h'.space (h.floor ▸ hfloor) hitem)⟩
  obtain ⟨found₁, hp₁, hname₁, hparent₁, hdraft₁⟩ := h.scope hp
  obtain ⟨found₂, hp₂, hname₂, hparent₂, hdraft₂⟩ := h'.scope hp₁
  exact ⟨found₂, hp₂, hname₂.trans hname₁, hparent₂.trans hparent₁, fun hne =>
    (hdraft₂ (h.current ▸ hne)).trans (hdraft₁ hne)⟩

theorem Evaluates.refl (s : Session) : Evaluates s s :=
  ⟨.refl s, rfl, fun h h' => by rw [h] at h'; cases h'; rfl⟩

theorem Evaluates.trans (h : Evaluates s t) (h' : Evaluates t u) : Evaluates s u := by
  refine ⟨h.toEvolves.trans h'.toEvolves, h'.size_eq.trans h.size_eq, fun hp hp₂ => ?_⟩
  obtain ⟨found₁, hp₁, -⟩ := h.scope hp
  exact (h'.draft hp₁ hp₂).trans (h.draft hp hp₁)

instance : IsPreorder Session Evolves where
  refl := .refl
  trans _ _ _ := .trans

instance : IsPreorder Session Evaluates where
  refl := .refl
  trans _ _ _ := .trans

/-! ## Moves -/

theorem evolves_modifyScope {f : Scope → Scope}
    (hf : ∀ found, (f found).name = found.name ∧ (f found).parent? = found.parent? ∧
      (p ≠ s.current → (f found).draft? = found.draft?))
    (hspace : ∀ {q id : Nat} {m : String}, q < s.floor →
      (s.modifyScope p f).item? q m = some (.space id) → s.item? q m = some (.space id)) :
    Evolves s (s.modifyScope p f) := by
  refine ⟨rfl, rfl, rfl, rfl, rfl, id, Nat.le_of_eq (size_modifyScope f).symm,
    fun {q found} hq => ?_, hspace⟩
  obtain ⟨hname, hparent, hdraft⟩ := hf found
  rw [scopes_modifyScope, hq]
  split
  · rename_i heq
    exact ⟨f found, rfl, hname, hparent, fun hne => hdraft (heq ▸ hne)⟩
  · exact ⟨found, rfl, rfl, rfl, fun _ => rfl⟩

theorem evolves_insert {item : Item} (h : ∀ id, item = .space id → s.floor ≤ p) :
    Evolves s (s.insert p name item) := by
  refine evolves_modifyScope (fun found => ⟨rfl, rfl, fun _ => rfl⟩) fun hfloor hitem => ?_
  rcases item?_insert hitem with ⟨rfl, -, heq⟩ | hitem
  · exact absurd (h _ heq.symm) (Nat.not_le_of_lt hfloor)
  · exact hitem

theorem evolves_pushScope {found : Scope}
    (h : ∀ (m : String) (id : Nat), found.items[m]? ≠ some (Item.space id)) :
    Evolves s (s.pushScope found) := by
  refine ⟨rfl, rfl, rfl, rfl, rfl, id, ?_, fun {q found'} hq => ?_, fun hfloor hitem => ?_⟩
  · rw [size_pushScope]
    exact Nat.le_succ _
  · have hlt := (Array.getElem?_eq_some_iff.1 hq).1
    exact ⟨found', by rw [scopes_pushScope, if_neg (Nat.ne_of_lt hlt), hq], rfl, rfl, fun _ => rfl⟩
  · rcases item?_pushScope hitem with ⟨-, hitem⟩ | hitem
    · exact absurd hitem (h _ _)
    · exact hitem

/-- **Moves are what commands may do.** -/
theorem evolves_of_move (h : Move s t) : Evolves s t := by
  cases h with
  | write line => exact { Evolves.refl s with }
  | draft _ =>
    refine evolves_modifyScope (fun found => ⟨rfl, rfl, fun hne => absurd rfl hne⟩) ?_
    exact fun _ hitem => item?_setDraft _ ▸ hitem
  | @bind scope name item h => exact evolves_insert fun id heq => by cases heq; cases h
  | register d _ _ =>
    refine { Evolves.refl s with unit := fun {id d'} hd => ?_ }
    exact (Array.getElem?_push_lt (Array.getElem?_eq_some_iff.1 hd).1).trans
      ((Array.getElem?_eq_getElem _).symm.trans hd)
  | @space scope name hscope hfloor =>
    exact (evolves_insert fun _ _ => hfloor).trans (evolves_pushScope fun m id => by simp)
  | erase scope name =>
    exact evolves_modifyScope (fun found => ⟨rfl, rfl, fun _ => rfl⟩) fun _ => item?_erase

theorem evolves_of_moves (h : Moves s t) : Evolves s t := by
  induction h with
  | refl => exact .refl s
  | tail _ h ih => exact ih.trans (evolves_of_move h)

/-! ## Calls -/

variable {f : Frame} {parent : Nat} {args : List (String × Quantity)}

theorem scopes_leave : (t.leave f).scopes[p]? = if p < f.size then t.scopes[p]? else none := by
  rw [leave, Array.take_eq_extract, Array.getElem?_extract]
  split
  · rw [if_pos (by omega), Nat.zero_add]
  · split
    · rw [Array.getElem?_eq_none (by omega)]
    · rfl

theorem size_leave (h : f.size ≤ t.scopes.size) : (t.leave f).scopes.size = f.size := by
  simp [leave, h]

theorem item?_leave {item : Item} (h : (t.leave f).item? p name = some item) :
    p < f.size ∧ t.item? p name = some item := by
  obtain ⟨found, hfound, hitem⟩ := item?_eq_some.1 h
  rw [scopes_leave] at hfound
  split at hfound
  · rename_i hlt
    exact ⟨hlt, item?_eq_some.2 ⟨found, hfound, hitem⟩⟩
  · cases hfound

theorem scopes_enter (h : p < s.scopes.size) :
    (s.enter name parent args).scopes[p]? = s.scopes[p]? :=
  (Array.getElem?_push_lt h).trans (Array.getElem?_eq_getElem h).symm

theorem item?_enter (h : p < s.scopes.size) :
    (s.enter name parent args).item? p m = s.item? p m := by
  rw [item?, scopes_enter h, item?]

theorem size_le_of_call (h : Evolves (s.enter name parent args) t) :
    s.scopes.size ≤ t.scopes.size := by
  have hle := h.size_le
  simp only [enter, Array.size_push] at hle
  omega

/-- **At the end of a call everything is as it was**, apart from the items of the scopes, the units
and the lines written. -/
theorem evaluates_of_call (h : Evolves (s.enter name parent args) t) :
    Evaluates s (t.leave s.frame) := by
  have hsize := size_le_of_call h
  have hscope {p : Nat} {found : Scope} (hp : s.scopes[p]? = some found) :
      ∃ found', (t.leave s.frame).scopes[p]? = some found' ∧ found'.name = found.name ∧
        found'.parent? = found.parent? ∧ found'.draft? = found.draft? := by
    have hlt := (Array.getElem?_eq_some_iff.1 hp).1
    obtain ⟨found', hp', hname, hparent, hdraft⟩ := h.scope ((scopes_enter hlt).trans hp)
    refine ⟨found', ?_, hname, hparent, hdraft (Nat.ne_of_lt hlt)⟩
    rw [scopes_leave, if_pos (show p < s.frame.size from hlt), hp']
  refine ⟨⟨rfl, ?_, rfl, h.options, h.system, h.unit, ?_, fun hp => ?_,
    fun {p id m} _ hitem => ?_⟩, ?_, fun hp hp' => ?_⟩
  · rw [leave, h.depth]
    rfl
  · rw [size_leave hsize]
    exact Nat.le_refl _
  · obtain ⟨found', hp', hname, hparent, hdraft⟩ := hscope hp
    exact ⟨found', hp', hname, hparent, fun _ => hdraft⟩
  · -- the frame starts where the scopes of `s` end, so they got no namespaces
    obtain ⟨hlt, hitem⟩ := item?_leave hitem
    have hold := h.space (show p < (s.enter name parent args).floor from hlt) hitem
    rwa [item?_enter hlt] at hold
  · exact size_leave hsize
  · obtain ⟨found₁, hp₁, -, -, hdraft⟩ := hscope hp
    rw [hp₁] at hp'
    cases hp'
    exact hdraft

/-! ## Invariants -/

/-- What is called: a function that a name stands for, with the scope that it was declared in, or a
script, in the global scope. -/
inductive Caller (s : Session) : String → Nat → Prop where
  | function {home : Home} {name : String} {f : UserFunction} {scope : Nat}
      (h : s.function? home name = some (f, scope)) : Caller s f.name scope
  | script (name : String) : Caller s name global

/-- A property of sessions that moves, calls and the ends of calls preserve. -/
structure Invariant (I : Session → Prop) : Prop where
  move : ∀ {s t : Session}, I s → Move s t → I t
  enter : ∀ {s : Session} {name : String} {parent : Nat} {args : List (String × Quantity)}, I s →
    Caller s name parent → s.depth < s.options.maxCallDepth → I (s.enter name parent args)
  leave : ∀ {s t : Session} {name : String} {parent : Nat} {args : List (String × Quantity)}, I s →
    Evolves (s.enter name parent args) t → I t → I (t.leave s.frame)

theorem Invariant.moves {I : Session → Prop} (hI : Invariant I) (hs : I s) (h : Moves s t) :
    I t := by
  induction h with
  | refl => exact hs
  | tail _ h ih => exact hI.move ih h

theorem invariant_true : Invariant fun _ => True :=
  ⟨fun _ _ => trivial, fun _ _ _ => trivial, fun _ _ _ => trivial⟩

/-- The depth of calls stays within a limit that the options set. -/
theorem invariant_depth (limit : Nat) : Invariant fun s =>
    s.options.maxCallDepth = limit ∧ s.depth ≤ limit := by
  refine ⟨fun hs h => ?_, fun hs _ hlt => ?_, fun hs h _ => ?_⟩
  · have he := evolves_of_move h
    rw [he.options, he.depth]
    exact hs
  · exact ⟨hs.1, hs.1 ▸ hlt⟩
  · have he := evaluates_of_call h
    rw [he.options, he.depth]
    exact hs

end QuantityCalc.Session
