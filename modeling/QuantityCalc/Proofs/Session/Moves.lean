import QuantityCalc.Proofs.Session.Changes
import Mathlib.Logic.Relation

/-!
# What a command changes

Apart from calls, a session changes in six ways, the cases of `Move`: a line is written, a
declaration goes on, an item is bound, a unit is registered, a namespace is declared, or a name is
removed. Every command that binds, declares or removes makes some of these moves, also when it fails
(`moves_of_define` and its neighbours), so an invariant of sessions is checked against the six of
them.
-/

namespace QuantityCalc.Session

variable {s t : Session} {p q scope id : Nat} {name m path : String} {item : Item}

/-! ## Items and scopes -/

/-- An item is found in a scope of the arena. -/
theorem item?_eq_some : s.item? p name = some item ↔
    ∃ found, s.scopes[p]? = some found ∧ found.items[name]? = some item := by
  simp [item?, Option.bind_eq_some_iff]

/-- Whatever has an item is a scope of the arena. -/
theorem lt_size_of_item? (h : s.item? p name = some item) : p < s.scopes.size := by
  obtain ⟨found, hfound, -⟩ := item?_eq_some.1 h
  exact (Array.getElem?_eq_some_iff.1 hfound).1

/-- The global scope of a new session binds no name but `SI`. -/
theorem item?_start {options : Options} {files : Files} {name : String}
    (h : name ≠ "SI") : (start options files).item? global name = none := by
  rw [item?]
  change (Std.TreeMap.ofList [("SI", Item.unitSystem)])[name]? = none
  rw [Std.TreeMap.ofList_singleton, Std.TreeMap.getElem?_insert, if_neg]
  · exact Std.TreeMap.getElem?_emptyc
  · intro heq
    exact h (Std.LawfulEqCmp.eq_of_compare heq).symm

/-- All that a new session binds is the system of units. -/
theorem eq_unitSystem_of_item?_start {options : Options} {files : Files}
    (h : (start options files).item? p name = some item) : item = .unitSystem := by
  obtain ⟨found, hfound, hitem⟩ := item?_eq_some.1 h
  have hp : p = global := Nat.lt_one_iff.1 (Array.getElem?_eq_some_iff.1 hfound).1
  subst hp
  cases hfound
  change (Std.TreeMap.ofList [("SI", Item.unitSystem)])[name]? = _ at hitem
  rw [Std.TreeMap.ofList_singleton, Std.TreeMap.getElem?_insert] at hitem
  split at hitem
  · exact (Option.some.inj hitem).symm
  · rw [Std.TreeMap.getElem?_emptyc] at hitem
    cases hitem

theorem scopes_modifyScope (f : Scope → Scope) :
    (s.modifyScope p f).scopes[q]? = if p = q then s.scopes[q]?.map f else s.scopes[q]? :=
  Array.getElem?_modify

@[simp] theorem size_modifyScope (f : Scope → Scope) :
    (s.modifyScope p f).scopes.size = s.scopes.size :=
  Array.size_modify

/-- A change of a scope that keeps its draft keeps whether a function is being declared. -/
theorem isDeclaring_modifyScope {f : Scope → Scope}
    (hf : ∀ found, (f found).draft? = found.draft?) :
    (s.modifyScope p f).isDeclaring = s.isDeclaring := by
  have hcurrent : (s.modifyScope p f).current = s.current := rfl
  simp only [isDeclaring, draft?, hcurrent, scopes_modifyScope]
  split
  · cases s.scopes[s.current]? with
    | none => rfl
    | some found => simp [hf]
  · rfl

/-- To bind an item changes the items of one scope, and nothing else in the arena. -/
theorem scopes_insert : (s.insert p name item).scopes[q]? =
    if p = q then s.scopes[q]?.map fun found => { found with items := found.items.insert name item }
    else s.scopes[q]? :=
  scopes_modifyScope _

@[simp] theorem size_insert : (s.insert p name item).scopes.size = s.scopes.size :=
  size_modifyScope _

/-- After an item is bound, every item is this one or was there before. -/
theorem item?_insert {item' : Item} (h : (s.insert p name item).item? q m = some item') :
    (q = p ∧ m = name ∧ item' = item) ∨ s.item? q m = some item' := by
  obtain ⟨found, hfound, hitem⟩ := item?_eq_some.1 h
  rw [scopes_insert] at hfound
  split at hfound
  · rename_i heq
    obtain ⟨found, hold, rfl⟩ := Option.map_eq_some_iff.1 hfound
    rw [Std.TreeMap.getElem?_insert] at hitem
    split at hitem
    · rename_i hname
      rw [Std.LawfulEqCmp.compare_eq_iff_eq] at hname
      exact Or.inl ⟨heq.symm, hname.symm, (Option.some.inj hitem).symm⟩
    · exact Or.inr (item?_eq_some.2 ⟨found, hold, hitem⟩)
  · exact Or.inr (item?_eq_some.2 ⟨found, hfound, hitem⟩)

/-- The item that is bound is found in its scope. -/
theorem item?_insert_self (h : p < s.scopes.size) :
    (s.insert p name item).item? p name = some item := by
  refine item?_eq_some.2 ⟨{ s.scopes[p] with items := s.scopes[p].items.insert name item }, ?_,
    Std.TreeMap.getElem?_insert_self⟩
  rw [scopes_insert, if_pos rfl, Array.getElem?_eq_getElem h, Option.map_some]

/-- No item appears when a name is removed. -/
theorem item?_erase (h : (s.erase p name).item? q m = some item) : s.item? q m = some item := by
  obtain ⟨found, hfound, hitem⟩ := item?_eq_some.1 h
  rw [erase, scopes_modifyScope] at hfound
  split at hfound
  · obtain ⟨found, hold, rfl⟩ := Option.map_eq_some_iff.1 hfound
    rw [Std.TreeMap.getElem?_erase] at hitem
    split at hitem
    · cases hitem
    · exact item?_eq_some.2 ⟨found, hold, hitem⟩
  · exact item?_eq_some.2 ⟨found, hfound, hitem⟩

/-- Items are bound apart from the draft of a scope. -/
theorem item?_setDraft (d? : Option Draft) : (s.setDraft d?).item? q m = s.item? q m := by
  rw [item?, setDraft, scopes_modifyScope]
  split
  · rw [item?]
    cases s.scopes[q]? <;> rfl
  · rfl

/-- The session with a new scope. -/
def pushScope (s : Session) (found : Scope) : Session := { s with scopes := s.scopes.push found }

/-- A new scope stands behind all others. -/
theorem scopes_pushScope (found : Scope) : (s.pushScope found).scopes[q]? =
    if q = s.scopes.size then some found else s.scopes[q]? :=
  Array.getElem?_push

@[simp] theorem size_pushScope (found : Scope) :
    (s.pushScope found).scopes.size = s.scopes.size + 1 :=
  Array.size_push found

/-- After a scope is added, every item is one of its own or was there before. -/
theorem item?_pushScope {found : Scope} (h : (s.pushScope found).item? q m = some item) :
    (q = s.scopes.size ∧ found.items[m]? = some item) ∨ s.item? q m = some item := by
  obtain ⟨found', hfound, hitem⟩ := item?_eq_some.1 h
  rw [scopes_pushScope] at hfound
  split at hfound
  · rename_i heq
    cases hfound
    exact Or.inl ⟨heq, hitem⟩
  · exact Or.inr (item?_eq_some.2 ⟨found', hfound, hitem⟩)

/-! ## Moves -/

/-- The items that a name may be bound to in a scope, apart from namespaces. -/
inductive Admissible (s : Session) : Nat → String → Item → Prop where
  | var {scope : Nat} {name : String} (value : Quantity) : Admissible s scope name (.var value)
  | function {name : String} (f : UserFunction) :
      Admissible s s.current name (.function f s.current)
  | unit {scope id : Nat} {name : String} {d : UnitDefinition}
      (hd : s.system.definitions[id]? = some d) (hsymbol : d.symbol = name) :
      Admissible s scope name (.unit id)

/-- A scope that a path can lead to. -/
def Names (s : Session) (scope : Nat) : Prop :=
  scope = s.current ∨ ∃ p name, s.item? p name = some (.space scope)

/-- A change of a session by a command. -/
inductive Move (s : Session) : Session → Prop where
  | write (line : String) : Move s (s.write line)
  | draft {d? : Option Draft} (hopen : ∀ d ∈ d?, d.isOpen = true) : Move s (s.setDraft d?)
  | bind {scope : Nat} {name : String} {item : Item} (h : Admissible s scope name item) :
      Move s (s.insert scope name item)
  | register (d : UnitDefinition) (hnew : s.system.idOf? d.symbol = none)
      (hprimary : ∀ {primary : Nat} {factor offset : Float},
        d.kind = .convertible primary factor offset → primary < s.system.definitions.size) :
      Move s { s with system := s.system.push d hnew }
  | space {scope : Nat} (name : String) (hscope : Names s scope) (hfloor : s.floor ≤ scope) :
      Move s ((s.insert scope name (.space s.scopes.size)).pushScope
        { name := name, parent? := some scope })
  | erase (scope : Nat) (name : String) : Move s (s.erase scope name)

/-! ## The moves of commands -/

/-- Paths lead through namespaces only. -/
theorem scopeOf_eq_ok {item? : Option Item} (h : scopeOf name item? = .ok scope) :
    item? = some (.space scope) := by
  unfold scopeOf at h
  split at h <;> cases h
  rfl

/-- From a scope that a path can lead to, further names lead to another one. -/
theorem names_of_foldlM {inner : List String}
    (h : inner.foldlM (fun scope name => scopeOf name (s.item? scope name)) p = .ok scope)
    (hp : s.Names p) : s.Names scope := by
  induction inner generalizing p with
  | nil => cases h; exact hp
  | cons name inner ih =>
    obtain ⟨q, hq, h⟩ := Except.bind_eq_ok.1 h
    exact ih h (Or.inr ⟨p, name, scopeOf_eq_ok hq⟩)

/-- The scope of a target is the current one or that of a namespace. -/
theorem names_of_target (h : s.target path = .ok (scope, name)) : s.Names scope := by
  unfold target at h
  split at h
  · cases h
    exact Or.inl rfl
  · rename_i first inner _
    obtain ⟨p, hp, h⟩ := Except.bind_eq_ok.1 h
    obtain ⟨q, hq, h⟩ := Except.bind_eq_ok.1 h
    cases h
    refine names_of_foldlM hq (Or.inr ?_)
    obtain ⟨⟨r, item⟩, hfind, hitem⟩ := Option.map_eq_some_iff.1 (scopeOf_eq_ok hp)
    obtain ⟨scope', -, hscope'⟩ := List.exists_of_findSome?_eq_some hfind
    obtain ⟨item', hitem', heq⟩ := Option.map_eq_some_iff.1 hscope'
    cases heq
    exact ⟨_, first, hitem' ▸ congrArg some hitem⟩

/-- To bind is to insert the item, where it is not refused. -/
theorem eq_insert_of_bind (h : s.afterBind scope name item = .ok t) :
    t = s.insert scope name item := by
  unfold afterBind at h
  split at h
  · split at h <;> cases h
    rfl
  · cases h
    rfl

/-- A definition binds one item. -/
theorem move_of_define {value : Quantity} (h : s.afterDefine path value = .ok t) : Move s t := by
  obtain ⟨⟨scope, name⟩, -, h⟩ := Except.bind_eq_ok.1 h
  exact eq_insert_of_bind h ▸ .bind (.var value)

theorem move_of_assign {value : Quantity} (h : s.afterAssign path value = .ok t) : Move s t := by
  unfold afterAssign at h
  split at h
  · exact move_of_define h
  · split at h <;> cases h
    · exact .bind (.var value)
    · exact .bind (.var value)

theorem move_of_registerFunction {f : UserFunction} (h : s.afterRegisterFunction f = .ok t) :
    Move s t := by
  unfold afterRegisterFunction at h
  split at h
  · split at h <;> cases h
    exact .bind (.function f)
  · cases h
    exact .bind (.function f)

/-- A namespace is declared together with its scope. -/
theorem move_of_declareNamespace (h : s.afterDeclareNamespace path = .ok (id, t)) : Move s t := by
  obtain ⟨⟨scope, name⟩, htarget, h⟩ := Except.bind_eq_ok.1 h
  simp only at h
  split at h
  · cases h
  · rename_i hfloor
    obtain ⟨u, hu, h⟩ := Except.bind_eq_ok.1 h
    cases h
    cases eq_insert_of_bind hu
    exact .space name (names_of_target htarget) (Nat.le_of_not_lt hfloor)

/-- To remove a name is one move. The scopes of the arena stay. -/
theorem move_of_remove (h : s.afterRemove path = .ok (item, t)) : Move s t := by
  obtain ⟨scope, -, h⟩ := Except.bind_eq_ok.1 h
  split at h
  · cases h
  · cases h
  · cases h
    exact .erase scope _

/-- A unit is registered under a symbol that had no definition, and takes the next number. -/
theorem registerUnit_eq_ok {symbol : String} {value : Quantity}
    (h : s.afterRegisterUnit symbol value = .ok (id, t)) :
    ∃ d : UnitDefinition, ∃ hnew : s.system.idOf? d.symbol = none, d.symbol = symbol ∧
      id = s.system.definitions.size ∧ t = { s with system := s.system.push d hnew } ∧
      Move s t := by
  unfold afterRegisterUnit at h
  split at h
  next id' system hdeclare =>
    cases h
    obtain ⟨-, d, hnew, hsymbol, hid, rfl, hkind⟩ := UnitSystem.eq_push_of_declare hdeclare
    refine ⟨d, hnew, hsymbol, hid, rfl, .register d hnew fun {primary factor offset} hprimary => ?_⟩
    rcases hkind with hkind | ⟨id', hid', hkind⟩
    · rw [hkind] at hprimary
      cases hprimary
    · rw [hkind] at hprimary
      cases hprimary
      exact UnitSystem.lt_size_of_idOf? hid'
  next => cases h

theorem move_of_cancelDraft (s : Session) : Move s s.cancelDraft.2 := .draft nofun

theorem move_of_continueDeclaration (s : Session) (t : Text) :
    Move s (s.continueDeclaration t).2 := by
  refine .draft fun d hd => ?_
  split at hd
  · rename_i hopen
    cases hd
    exact hopen
  · cases hd

/-- Moves one after the other. -/
abbrev Moves : Session → Session → Prop := Relation.ReflTransGen Move

/-- A change that may be refused makes a move or none. -/
theorem moves_of_change {f : Session → Except Error Session} {r : Except Error Unit}
    (hf : ∀ {u : Session}, f s = .ok u → Move s u)
    (h : (Action.change f).outcome s = .ok (r, t)) : Moves s t := by
  rcases Action.eq_of_outcome_change h with ⟨-, ht⟩ | ⟨e, -, -, rfl⟩
  · exact .single (hf ht)
  · exact .refl

/-- An update makes the move of its function, or none if it fails. -/
theorem moves_of_update {α : Type} {f : Session → Except Error (α × Session)} {r : Except Error α}
    (hf : ∀ {a : α} {u : Session}, f s = .ok (a, u) → Move s u)
    (h : (Action.update f).outcome s = .ok (r, t)) : Moves s t := by
  rw [Action.outcome_update] at h
  rcases hupdate : f s with e | ⟨a, u⟩
  · rw [hupdate] at h
    cases h
    exact .refl
  · rw [hupdate] at h
    cases h
    exact .single (hf hupdate)

section Requests

variable {value : Quantity} {r : Except Error Unit}

theorem moves_of_define (h : (define path value).outcome s = .ok (r, t)) : Moves s t :=
  moves_of_change move_of_define (define_eq_change path value ▸ h)

theorem moves_of_assign (h : (assign path value).outcome s = .ok (r, t)) : Moves s t :=
  moves_of_change move_of_assign (assign_eq_change path value ▸ h)

theorem moves_of_registerFunction {f : UserFunction}
    (h : (registerFunction f).outcome s = .ok (r, t)) : Moves s t :=
  moves_of_change move_of_registerFunction (registerFunction_eq_change f ▸ h)

theorem moves_of_declareNamespace {r : Except Error Nat}
    (h : (declareNamespace path).outcome s = .ok (r, t)) : Moves s t :=
  moves_of_update move_of_declareNamespace (declareNamespace_eq_update path ▸ h)

theorem moves_of_remove {r : Except Error Item} (h : (remove path).outcome s = .ok (r, t)) :
    Moves s t :=
  moves_of_update move_of_remove (remove_eq_update path ▸ h)

theorem moves_of_declareUnit {symbol : String}
    (h : (declareUnit symbol value).outcome s = .ok (r, t)) : Moves s t := by
  rw [declareUnit_eq_changes, Action.outcome_bind, Action.outcome_update] at h
  match hregister : s.afterRegisterUnit symbol value with
  | .error e =>
    rw [hregister] at h
    cases h
    exact .refl
  | .ok (id, u) =>
    obtain ⟨d, hnew, hsymbol, hid, hu, hmove⟩ := registerUnit_eq_ok hregister
    rw [hregister] at h
    have hd : u.system.definitions[id]? = some d := by
      rw [hu, hid]
      exact Array.getElem?_push_size
    refine .head hmove (moves_of_change (fun hbind => ?_) h)
    exact eq_insert_of_bind hbind ▸ .bind (.unit hd hsymbol)

end Requests

end QuantityCalc.Session
