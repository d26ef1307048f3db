import QuantityCalc.Proofs.Session.Valid

/-!
# Namespaces stand apart

A namespace has the name that it is bound to, and it is not among the scopes where names are looked
up: not from the current scope, and not from a scope that a function was declared in
(`Session.Apart`). So a namespace is bound in one place only (`Apart.eq_of_space`), and what is
bound in it can be reached through that place only. Moves, calls and the ends of calls keep this
(`invariant_apart`).
-/

namespace QuantityCalc.Session

variable {s t : Session} {p q id : Nat} {name m : String} {item : Item}

/-- Whether a scope is the one of a namespace. -/
def IsSpace (s : Session) (q : Nat) : Prop := ∃ p name, s.item? p name = some (.space q)

/-- No namespace is among the scopes where names are looked up from a scope. -/
def Outside (s : Session) (p : Nat) : Prop := ∀ q ∈ s.chain p, ¬s.IsSpace q

/-- Namespaces have the names that they are bound to, and are not among the scopes where names are
looked up. -/
structure Apart (s : Session) : Prop where
  name : ∀ {p id : Nat} {name : String}, s.item? p name = some (.space id) → s.scopeName id = name
  current : Outside s s.current
  function : ∀ {p scope : Nat} {name : String} {f : UserFunction},
    s.item? p name = some (.function f scope) → Outside s scope

theorem lt_size_of_isSpace (hs : Valid s) (h : s.IsSpace q) : q < s.scopes.size := by
  obtain ⟨p, name, hitem⟩ := h
  cases hs.item hitem with
  | space hfound _ => exact (Array.getElem?_eq_some_iff.1 hfound).1

theorem Outside.mono (h : Outside s p) (hchain : t.chain p = s.chain p)
    (hspace : ∀ q ≤ p, t.IsSpace q → s.IsSpace q) : Outside t p := by
  intro q hq hbound
  rw [hchain] at hq
  exact h q hq (hspace q (suffix_of_mem_chain hq).1 hbound)

/-- The global scope is no namespace. -/
theorem outside_global (hs : Valid s) : Outside s global := by
  intro q hq ⟨p, name, hitem⟩
  rw [chain_global hs, List.mem_singleton] at hq
  subst hq
  obtain ⟨root, hroot, hnone⟩ := hs.root
  cases hs.item hitem with
  | space hfound hparent =>
    rw [hroot] at hfound
    cases hfound
    rw [hnone] at hparent
    cases hparent

/-- **A namespace is bound in one place.** -/
theorem Apart.eq_of_space (hs : Valid s) (ha : Apart s) (h : s.item? p name = some (.space id))
    (h' : s.item? q m = some (.space id)) : p = q ∧ name = m := by
  refine ⟨?_, (ha.name h).symm.trans (ha.name h')⟩
  cases hs.item h with
  | space hfound hparent =>
    cases hs.item h' with
    | space hfound' hparent' =>
      rw [hfound] at hfound'
      cases hfound'
      rw [hparent] at hparent'
      exact Option.some.inj hparent'

theorem apart_start (options : Options) (files : Files) : Apart (start options files) := by
  have hitem {p : Nat} {name : String} {item : Item}
      (h : (start options files).item? p name = some item) : item = .unitSystem :=
    eq_unitSystem_of_item?_start h
  refine ⟨fun h => ?_, fun q _ ⟨p, name, h⟩ => ?_, fun h => ?_⟩ <;> cases hitem h

theorem apart_of_scopes_eq (ha : Apart s) (hscopes : t.scopes = s.scopes)
    (hcurrent : t.current = s.current) : Apart t := by
  have hitem (p : Nat) (name : String) : t.item? p name = s.item? p name := by
    rw [item?, hscopes, item?]
  have houtside {p : Nat} (h : Outside s p) : Outside t p := by
    refine h.mono (chain_congr fun q _ => by rw [hscopes]) fun q _ hspace => ?_
    obtain ⟨r, m, hbound⟩ := hspace
    exact ⟨r, m, hitem r m ▸ hbound⟩
  refine ⟨fun {p id name} h => ?_, hcurrent ▸ houtside ha.current, fun {p scope name f} h => ?_⟩
  · rw [scopeName, hscopes]
    exact ha.name (hitem p name ▸ h)
  · exact houtside (ha.function (hitem p name ▸ h))

theorem scopeName_of_evolves (he : Evolves s t) (hid : id < s.scopes.size) :
    t.scopeName id = s.scopeName id := by
  have hfound := Array.getElem?_eq_getElem hid
  obtain ⟨found', hfound', hname, -⟩ := he.scope hfound
  simp [scopeName, hfound', hfound, hname]

/-- **A session that evolves keeps its namespaces apart**, if namespaces are bound to the names of
new scopes and functions are declared outside of namespaces. -/
theorem apart_of_evolves (hs : Valid s) (ha : Apart s) (he : Evolves s t)
    (hspace : ∀ {p id : Nat} {name : String}, t.item? p name = some (.space id) →
      s.item? p name = some (.space id) ∨ s.scopes.size ≤ id ∧ t.scopeName id = name)
    (hfunction : ∀ {p scope : Nat} {name : String} {f : UserFunction},
      t.item? p name = some (.function f scope) →
        s.item? p name = some (.function f scope) ∨ scope = s.current ∨ Outside t scope) :
    Apart t := by
  have houtside {p : Nat} (hp : p < s.scopes.size) (h : Outside s p) : Outside t p := by
    refine h.mono (he.chain_eq hp) fun q hq ⟨r, name, hitem⟩ => ?_
    rcases hspace hitem with hitem | ⟨hle, -⟩
    · exact ⟨r, name, hitem⟩
    · omega
  refine ⟨fun {p id name} h => ?_, ?_, fun h => ?_⟩
  · rcases hspace h with h | ⟨-, h⟩
    · rw [scopeName_of_evolves he (lt_size_of_isSpace hs ⟨p, name, h⟩)]
      exact ha.name h
    · exact h
  · rw [he.current]
    exact houtside hs.current ha.current
  · rcases hfunction h with h | rfl | h
    · have hlt := lt_size_of_item? h
      cases hs.item h
      exact houtside hlt (ha.function h)
    · exact houtside hs.current ha.current
    · exact h

/-! ## Moves and calls -/

theorem apart_of_move (hs : Valid s) (ha : Apart s) (h : Move s t) : Apart t := by
  have he := evolves_of_move h
  cases h with
  | write line => exact apart_of_evolves hs ha he .inl .inl
  | draft _ =>
    exact apart_of_evolves hs ha he (fun h => .inl (item?_setDraft _ ▸ h))
      fun h => .inl (item?_setDraft _ ▸ h)
  | bind h =>
    refine apart_of_evolves hs ha he (fun hitem => ?_) fun hitem => ?_
    · rcases item?_insert hitem with ⟨-, -, rfl⟩ | hitem
      · cases h
      · exact .inl hitem
    · rcases item?_insert hitem with ⟨-, -, rfl⟩ | hitem
      · cases h
        exact .inr (.inl rfl)
      · exact .inl hitem
  | register d _ _ => exact apart_of_evolves hs ha he .inl .inl
  | @space scope name =>
    have hname : ((s.insert scope name (.space s.scopes.size)).pushScope
        { name := name, parent? := some scope }).scopeName s.scopes.size = name := by
      rw [scopeName, scopes_pushScope, if_pos size_insert.symm]
      rfl
    refine apart_of_evolves hs ha he (fun hitem => ?_) fun hitem => ?_
    · rcases item?_pushScope hitem with ⟨-, hitem⟩ | hitem
      · simp at hitem
      · rcases item?_insert hitem with ⟨-, rfl, heq⟩ | hitem
        · cases heq
          exact .inr ⟨Nat.le_refl _, hname⟩
        · exact .inl hitem
    · rcases item?_pushScope hitem with ⟨-, hitem⟩ | hitem
      · simp at hitem
      · rcases item?_insert hitem with ⟨-, -, heq⟩ | hitem
        · cases heq
        · exact .inl hitem
  | erase scope name =>
    exact apart_of_evolves hs ha he (fun h => .inl (item?_erase h)) fun h => .inl (item?_erase h)

variable {parent : Nat} {args : List (String × Quantity)}

theorem outside_of_caller (hs : Valid s) (ha : Apart s) (h : Caller s name parent) :
    Outside s parent := by
  cases h with
  | @function home name f scope h =>
    unfold function? itemAt? at h
    split at h
    · rename_i f' scope' hitem
      cases h
      split at hitem
      · exact ha.function hitem
      · cases hitem
      · cases hitem
    · cases h
  | script name => exact outside_global hs

theorem apart_enter (hs : Valid s) (ha : Apart s) (h : Caller s name parent) :
    Apart (s.enter name parent args) := by
  have hparent := lt_size_of_caller hs h
  have hitem {p : Nat} {m : String} {item : Item}
      (h : (s.enter name parent args).item? p m = some item) :
      (∃ value, item = .var value) ∨ s.item? p m = some item := by
    rcases item?_enter_cases h with ⟨arg, -, heq⟩ | h
    · exact .inl ⟨arg.2, heq⟩
    · exact .inr h
  have hspace {q : Nat} (h : (s.enter name parent args).IsSpace q) : s.IsSpace q := by
    obtain ⟨p, m, h⟩ := h
    rcases hitem h with ⟨value, heq⟩ | h
    · cases heq
    · exact ⟨p, m, h⟩
  have houtside {p : Nat} (hp : p < s.scopes.size) (h : Outside s p) :
      Outside (s.enter name parent args) p := by
    refine h.mono (chain_congr fun q hq => ?_) fun q _ => hspace
    rw [scopes_enter (Nat.lt_of_le_of_lt hq hp)]
  refine ⟨fun {p id m} h => ?_, ?_, fun h => ?_⟩
  · rcases hitem h with ⟨value, heq⟩ | h
    · cases heq
    · rw [scopeName, scopes_enter (lt_size_of_isSpace hs ⟨p, m, h⟩)]
      exact ha.name h
  · -- the scope of the frame is new, so it is no namespace
    have hframe : (s.enter name parent args).scopes[s.scopes.size]? =
        some ⟨name, some parent, _, none⟩ := Array.getElem?_push_size
    have hvalid : Valid (s.enter name parent args) := valid_enter hs hparent
    have hchain := chain_eq_cons hvalid hframe rfl
    intro q hq hbound
    change q ∈ (s.enter name parent args).chain s.scopes.size at hq
    rw [hchain, List.mem_cons] at hq
    rcases hq with rfl | hq
    · exact absurd (lt_size_of_isSpace hs (hspace hbound)) (Nat.lt_irrefl _)
    · exact houtside hparent (outside_of_caller hs ha h) q hq hbound
  · rcases hitem h with ⟨value, heq⟩ | h
    · cases heq
    · have hlt := lt_size_of_item? h
      cases hs.item h
      exact houtside hlt (ha.function h)

theorem apart_leave (hs : Valid s) (ha : Apart s) (h : Evolves (s.enter name parent args) t)
    (ht : Valid t) (hat : Apart t) : Apart (t.leave s.frame) := by
  have he := (evaluates_of_call h).toEvolves
  refine apart_of_evolves hs ha he (fun {p id m} hitem => ?_) fun {p scope m f} hitem => ?_
  · -- the scopes before the frame got no namespaces
    obtain ⟨hlt, hitem⟩ := item?_leave hitem
    have hold := h.space (show p < (s.enter name parent args).floor from hlt) hitem
    rw [item?_enter hlt] at hold
    exact .inl hold
  · obtain ⟨hlt, hitem⟩ := item?_leave hitem
    have houtside := hat.function hitem
    cases ht.item hitem
    refine .inr (.inr (houtside.mono (chain_congr fun q hq => ?_) fun q _ ⟨r, n, hbound⟩ => ?_))
    · rw [scopes_leave, if_pos (Nat.lt_of_le_of_lt hq hlt)]
    · exact ⟨r, n, (item?_leave hbound).2⟩

/-- **Namespaces stay apart.** -/
theorem invariant_apart : Invariant fun s => Valid s ∧ Apart s where
  move hs h := ⟨valid_of_move hs.1 h, apart_of_move hs.1 hs.2 h⟩
  enter hs h _ := ⟨valid_enter hs.1 (lt_size_of_caller hs.1 h), apart_enter hs.1 hs.2 h⟩
  leave hs h ht := ⟨valid_leave hs.1 h ht.1, apart_leave hs.1 hs.2 h ht.1 ht.2⟩

end QuantityCalc.Session
