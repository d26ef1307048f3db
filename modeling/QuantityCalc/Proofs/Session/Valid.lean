import QuantityCalc.Proofs.Session.Evolution

/-!
# Valid sessions

A session is valid if its scopes form a tree below the global scope, the current scope is one of
them, and every item is sound: a namespace has a scope of its own below the scope that binds it, a
function records the scope that binds it, and a unit is registered under the name that it is bound
to. A declaration in progress is open. New sessions are valid (`valid_start`), and moves, calls and
the ends of calls keep sessions valid (`valid_of_move`, `valid_enter`, `valid_leave`). In a valid
session names are looked up in a chain of scopes that goes down to the global scope
(`chain_eq_cons`, `getLast?_chain`).
-/

namespace QuantityCalc.Session

variable {s t : Session} {p q : Nat} {name m : String} {item : Item}

/-- What an item that a scope binds to a name refers to is there. -/
inductive Sound (s : Session) (p : Nat) (name : String) : Item → Prop where
  | var (value : Quantity) : Sound s p name (.var value)
  | function (f : UserFunction) : Sound s p name (.function f p)
  | unit {id : Nat} {d : UnitDefinition} (hd : s.system.definitions[id]? = some d)
      (hsymbol : d.symbol = name) : Sound s p name (.unit id)
  | unitSystem (hname : name = s.system.name) : Sound s p name .unitSystem
  | space {id : Nat} {found : Scope} (hfound : s.scopes[id]? = some found)
      (hparent : found.parent? = some p) : Sound s p name (.space id)

/-- A session in which nothing refers to what is not there. -/
structure Valid (s : Session) : Prop where
  root : ∃ found, s.scopes[global]? = some found ∧ found.parent? = none
  parent : ∀ {p : Nat} {found : Scope}, s.scopes[p]? = some found → p ≠ global →
    ∃ q < p, found.parent? = some q
  current : s.current < s.scopes.size
  item : ∀ {p : Nat} {name : String} {item : Item}, s.item? p name = some item →
    Sound s p name item
  draft : ∀ {p : Nat} {found : Scope}, s.scopes[p]? = some found →
    ∀ d ∈ found.draft?, d.isOpen = true

/-- **New sessions are valid.**. -/
theorem valid_start (options : Options) (files : Files) : Valid (start options files) := by
  have hscope {p : Nat} {found : Scope} (h : (start options files).scopes[p]? = some found) :
      p = global ∧ found = ⟨"global", none, .ofList [("SI", Item.unitSystem)], none⟩ := by
    obtain ⟨hlt, hfound⟩ := Array.getElem?_eq_some_iff.1 h
    have hp : p = 0 := Nat.lt_one_iff.1 hlt
    subst hp
    exact ⟨rfl, hfound.symm⟩
  refine ⟨⟨_, rfl, rfl⟩, fun hp hne => absurd (hscope hp).1 hne, Nat.one_pos,
    fun {p name item} h => ?_, fun hp d hd => ?_⟩
  · obtain ⟨found, hfound, hitem⟩ := item?_eq_some.1 h
    obtain ⟨rfl, rfl⟩ := hscope hfound
    rw [Std.TreeMap.ofList_singleton, Std.TreeMap.getElem?_insert] at hitem
    split at hitem
    · rename_i hname
      cases hitem
      exact .unitSystem (Std.LawfulEqCmp.compare_eq_iff_eq.1 hname).symm
    · rw [Std.TreeMap.getElem?_emptyc] at hitem
      cases hitem
  · obtain ⟨-, rfl⟩ := hscope hp
    cases hd

/-- What an item refers to stays there. -/
theorem Sound.of_evolves (h : Sound s p name item) (he : Evolves s t) : Sound t p name item := by
  cases h with
  | var value => exact .var value
  | function f => exact .function f
  | unit hd hsymbol => exact .unit (he.unit hd) hsymbol
  | unitSystem hname => exact .unitSystem (hname.trans he.system.symm)
  | space hfound hparent =>
    obtain ⟨found', hfound', -, hparent', -⟩ := he.scope hfound
    exact .space hfound' (hparent'.trans hparent)

/-- Whether a session is valid depends on its scopes, its system and its current scope only. -/
theorem valid_of_scopes_eq (hs : Valid s) (hscopes : t.scopes = s.scopes)
    (hsystem : t.system = s.system) (hcurrent : t.current < t.scopes.size) : Valid t := by
  refine ⟨hscopes ▸ hs.root, hscopes ▸ hs.parent, hcurrent, fun {p name item} h => ?_,
    hscopes ▸ hs.draft⟩
  rw [item?, hscopes, ← item?] at h
  cases hs.item h with
  | var value => exact .var value
  | function f => exact .function f
  | unit hd hsymbol => exact .unit (hsystem ▸ hd) hsymbol
  | unitSystem hname => exact .unitSystem (hsystem ▸ hname)
  | space hfound hparent => exact .space (hscopes ▸ hfound) hparent

/-- **A session that evolves stays valid**, if its new scopes have parents, its new items are sound
and the declarations in progress are open. -/
theorem valid_of_evolves (hs : Valid s) (he : Evolves s t)
    (hscope : ∀ {p : Nat} {found : Scope}, s.scopes.size ≤ p → t.scopes[p]? = some found →
      ∃ q < p, found.parent? = some q)
    (hitem : ∀ {p : Nat} {name : String} {item : Item}, t.item? p name = some item →
      s.item? p name = some item ∨ Sound t p name item)
    (hdraft : ∀ {p : Nat} {found : Scope}, t.scopes[p]? = some found →
      ∀ d ∈ found.draft?, d.isOpen = true) : Valid t := by
  refine ⟨?_, fun {p found} hp hne => ?_, ?_, fun {p name item} h => ?_, hdraft⟩
  · obtain ⟨found, hfound, hparent⟩ := hs.root
    obtain ⟨found', hfound', -, hparent', -⟩ := he.scope hfound
    exact ⟨found', hfound', hparent'.trans hparent⟩
  · rcases Nat.lt_or_ge p s.scopes.size with hlt | hge
    · obtain ⟨q, hq, hparent⟩ := hs.parent (Array.getElem?_eq_getElem hlt) hne
      obtain ⟨found', hfound', -, hparent', -⟩ := he.scope (Array.getElem?_eq_getElem hlt)
      rw [hp] at hfound'
      cases hfound'
      exact ⟨q, hq, hparent'.trans hparent⟩
    · exact hscope hge hp
  · rw [he.current]
    exact Nat.lt_of_lt_of_le hs.current he.size_le
  · rcases hitem h with h | h
    · exact (hs.item h).of_evolves he
    · exact h

/-! ## Moves -/

/-- A change of one scope leaves all drafts open, if it keeps the draft or puts an open one in its
place. -/
theorem isOpen_modifyScope (hs : Valid s) {f : Scope → Scope} {found : Scope}
    (h : (s.modifyScope p f).scopes[q]? = some found)
    (hf : ∀ found, (f found).draft? = found.draft? ∨ ∀ d ∈ (f found).draft?, d.isOpen = true) :
    ∀ d ∈ found.draft?, d.isOpen = true := by
  rw [scopes_modifyScope] at h
  split at h
  · obtain ⟨found, hfound, rfl⟩ := Option.map_eq_some_iff.1 h
    rcases hf found with heq | hopen
    · rw [heq]
      exact hs.draft hfound
    · exact hopen
  · exact hs.draft h

/-- The scopes that paths can lead to are in the arena. -/
theorem lt_size_of_names (hs : Valid s) (h : s.Names p) : p < s.scopes.size := by
  rcases h with rfl | ⟨q, name, hitem⟩
  · exact hs.current
  · cases hs.item hitem with
    | space hfound _ => exact (Array.getElem?_eq_some_iff.1 hfound).1

/-- A session with the same scopes is valid if each item is one of before, or sound, and each draft
is open. -/
theorem valid_of_size_eq (hs : Valid s) (he : Evolves s t) (hsize : t.scopes.size = s.scopes.size)
    (hitem : ∀ {p : Nat} {name : String} {item : Item}, t.item? p name = some item →
      s.item? p name = some item ∨ Sound t p name item)
    (hdraft : ∀ {p : Nat} {found : Scope}, t.scopes[p]? = some found →
      ∀ d ∈ found.draft?, d.isOpen = true) : Valid t := by
  refine valid_of_evolves hs he (fun hge hp => ?_) hitem hdraft
  have hlt := (Array.getElem?_eq_some_iff.1 hp).1
  omega

/-- **Each move keeps sessions valid.**. -/
theorem valid_of_move (hs : Valid s) (h : Move s t) : Valid t := by
  have he := evolves_of_move h
  cases h with
  | write line => exact valid_of_size_eq hs he rfl (fun hitem => Or.inl hitem) hs.draft
  | draft hopen =>
    exact valid_of_size_eq hs he (size_modifyScope _)
      (fun hitem => Or.inl (item?_setDraft _ ▸ hitem))
      fun hp => isOpen_modifyScope hs hp fun _ => Or.inr hopen
  | @bind scope name item h =>
    refine valid_of_size_eq hs he size_insert (fun hitem => ?_)
      fun hp => isOpen_modifyScope hs hp fun _ => Or.inl rfl
    rcases item?_insert hitem with ⟨rfl, rfl, rfl⟩ | hitem
    · right
      cases h with
      | var value => exact .var value
      | function f => exact .function f
      | unit hd hsymbol => exact .unit hd hsymbol
    · exact Or.inl hitem
  | register d _ _ => exact valid_of_size_eq hs he rfl (fun hitem => Or.inl hitem) hs.draft
  | @space scope name hscope hfloor =>
    -- the new scope has the number of the scopes before it, so its parent has a smaller one
    have hnew : ∀ {p : Nat} {found : Scope}, s.scopes.size ≤ p →
        ((s.insert scope name (.space s.scopes.size)).pushScope
          { name := name, parent? := some scope }).scopes[p]? = some found →
        p = s.scopes.size ∧ found.parent? = some scope := by
      intro p found hge hp
      rw [scopes_pushScope, size_insert] at hp
      split at hp
      · cases hp
        exact ⟨‹_›, rfl⟩
      · have hlt := (Array.getElem?_eq_some_iff.1 hp).1
        rw [size_insert] at hlt
        omega
    refine valid_of_evolves hs he (fun hge hp => ?_) (fun hitem => ?_) fun hp => ?_
    · obtain ⟨rfl, hparent⟩ := hnew hge hp
      exact ⟨scope, lt_size_of_names hs hscope, hparent⟩
    · rcases item?_pushScope hitem with ⟨-, hitem⟩ | hitem
      · simp at hitem
      · rcases item?_insert hitem with ⟨rfl, rfl, rfl⟩ | hitem
        · exact Or.inr (.space ((scopes_pushScope _).trans (if_pos size_insert.symm)) rfl)
        · exact Or.inl hitem
    · rw [scopes_pushScope] at hp
      split at hp
      · cases hp
        exact nofun
      · exact isOpen_modifyScope hs hp fun _ => Or.inl rfl
  | erase scope name =>
    exact valid_of_size_eq hs he (size_modifyScope _) (fun hitem => Or.inl (item?_erase hitem))
      fun hp => isOpen_modifyScope hs hp fun _ => Or.inl rfl

/-! ## Calls -/

variable {parent : Nat} {args : List (String × Quantity)}

/-- In the scope of a call, a name is bound to an argument or to what the scope started with. -/
theorem eq_var_of_bound {items : Std.TreeMap String Item}
    (h : (args.foldl (fun items (name, value) => items.insert name (.var value)) items)[m]? =
      some item) : (∃ arg ∈ args, item = .var arg.2) ∨ items[m]? = some item := by
  induction args generalizing items with
  | nil => exact Or.inr h
  | cons arg args ih =>
    rcases ih h with ⟨arg', hmem, heq⟩ | h
    · exact Or.inl ⟨arg', List.mem_cons_of_mem arg hmem, heq⟩
    · rw [Std.TreeMap.getElem?_insert] at h
      split at h
      · exact Or.inl ⟨arg, List.mem_cons_self, (Option.some.inj h).symm⟩
      · exact Or.inr h

/-- A call adds nothing but variables with its arguments. -/
theorem item?_enter_cases (h : (s.enter name parent args).item? p m = some item) :
    (∃ arg ∈ args, item = .var arg.2) ∨ s.item? p m = some item := by
  have hpush : (s.pushScope ⟨name, some parent,
      args.foldl (fun items (name, value) => items.insert name (.var value)) ∅, none⟩).item? p m =
        some item := h
  rcases item?_pushScope hpush with ⟨-, hitem⟩ | hold
  · rcases eq_var_of_bound hitem with harg | hitem
    · exact Or.inl harg
    · rw [Std.TreeMap.getElem?_emptyc] at hitem
      cases hitem
  · exact Or.inr hold

/-- **The beginning of a call keeps sessions valid**, if the function is in a scope of the arena. -/
theorem valid_enter (hs : Valid s) (hparent : parent < s.scopes.size) :
    Valid (s.enter name parent args) := by
  let frame : Scope :=
    ⟨name, some parent, args.foldl (fun items (name, value) => items.insert name (.var value)) ∅,
      none⟩
  have hframe {m : String} {item : Item} (h : frame.items[m]? = some item) :
      ∃ value, item = .var value := by
    rcases eq_var_of_bound h with ⟨arg, -, heq⟩ | h
    · exact ⟨arg.2, heq⟩
    · rw [Std.TreeMap.getElem?_emptyc] at h
      cases h
  have hpush : Valid (s.pushScope frame) := by
    refine valid_of_evolves hs (evolves_pushScope fun m id h => ?_) (fun hge hp => ?_)
      (fun hitem => ?_) fun hp => ?_
    · obtain ⟨value, heq⟩ := hframe h
      cases heq
    · rw [scopes_pushScope] at hp
      split at hp
      · rename_i heq
        cases hp
        exact ⟨parent, heq ▸ hparent, rfl⟩
      · rw [Array.getElem?_eq_none hge] at hp
        cases hp
    · rcases item?_pushScope hitem with ⟨-, hitem⟩ | hitem
      · obtain ⟨value, rfl⟩ := hframe hitem
        exact Or.inr (.var value)
      · exact Or.inl hitem
    · rw [scopes_pushScope] at hp
      split at hp
      · cases hp
        exact nofun
      · exact hs.draft hp
  refine valid_of_scopes_eq hpush rfl rfl ?_
  rw [enter, Array.size_push]
  exact Nat.lt_succ_self _

/-- **The end of a call keeps sessions valid.** The scopes of the call are released, and nothing in
the others refers to them. -/
theorem valid_leave (hs : Valid s) (h : Evolves (s.enter name parent args) t) (ht : Valid t) :
    Valid (t.leave s.frame) := by
  have he := evaluates_of_call h
  refine valid_of_size_eq hs he.toEvolves he.size_eq (fun {p m item} hitem => ?_) fun hp => ?_
  · obtain ⟨hlt, hold⟩ := item?_leave hitem
    cases ht.item hold with
    | var value => exact Or.inr (.var value)
    | function f => exact Or.inr (.function f)
    | unit hd hsymbol => exact Or.inr (.unit hd hsymbol)
    | unitSystem hname => exact Or.inr (.unitSystem hname)
    | space _ _ =>
      -- the scopes before the frame got no namespaces, so this one is not released
      have hfloor : p < (s.enter name parent args).floor := hlt
      have hspace := h.space hfloor hold
      rw [item?_enter hlt] at hspace
      exact Or.inl hspace
  · rw [scopes_leave] at hp
    split at hp
    · exact ht.draft hp
    · cases hp

/-- A function is called in a scope of the arena. -/
theorem lt_size_of_caller (hs : Valid s) (h : Caller s name parent) : parent < s.scopes.size := by
  cases h with
  | @function home name f scope h =>
    unfold function? itemAt? at h
    split at h
    · rename_i f' scope' hitem
      cases h
      split at hitem
      · cases hs.item hitem
        exact lt_size_of_item? hitem
      · cases hitem
      · cases hitem
    · cases h
  | script name =>
    obtain ⟨root, hroot, -⟩ := hs.root
    exact (Array.getElem?_eq_some_iff.1 hroot).1

/-- **Validity is an invariant.** -/
theorem invariant_valid : Invariant Valid where
  move := valid_of_move
  enter hs hcaller _ := valid_enter hs (lt_size_of_caller hs hcaller)
  leave := valid_leave

/-! ## Looking up names -/

/-- The chain of a scope depends on the parents of the scopes up to it. -/
theorem chain_congr (h : ∀ q ≤ p, (t.scopes[q]?).map (·.parent?) = (s.scopes[q]?).map (·.parent?)) :
    t.chain p = s.chain p := by
  induction p using Nat.strongRecOn with
  | ind p ih =>
    have hp := h p (Nat.le_refl p)
    rw [chain, chain.eq_def s]
    rcases hs : s.scopes[p]? with _ | found <;> rcases ht : t.scopes[p]? with _ | found'
    · rfl
    · simp [hs, ht] at hp
    · simp [hs, ht] at hp
    · have hparent : found'.parent? = found.parent? := by simpa [hs, ht] using hp
      simp only [hparent]
      cases found.parent? with
      | none => rfl
      | some q =>
        simp only
        split
        · rename_i hlt
          rw [ih q hlt fun r hr => h r (Nat.le_trans hr (Nat.le_of_lt hlt))]
        · rfl

theorem mem_chain_self (h : p < s.scopes.size) : p ∈ s.chain p := by
  rw [chain, Array.getElem?_eq_getElem h]
  split
  · contradiction
  · split <;> simp

theorem chain_eq_nil (h : s.scopes.size ≤ p) : s.chain p = [] := by
  rw [chain, Array.getElem?_eq_none h]

/-- A chain is empty, or it goes on behind its first scope with the chain of a lower one. -/
theorem chain_cases (s : Session) (p : Nat) :
    s.chain p = [] ∨ s.chain p = [p] ∨ ∃ q < p, s.chain p = p :: s.chain q := by
  have hchain := chain.eq_def s p
  match hp : s.scopes[p]? with
  | none => exact .inl (by simp [hchain, hp])
  | some found =>
    match hparent : found.parent? with
    | none => exact .inr (.inl (by simp [hchain, hp, hparent]))
    | some q =>
      by_cases hlt : q < p
      · exact .inr (.inr ⟨q, hlt, by simp [hchain, hp, hparent, hlt]⟩)
      · exact .inr (.inl (by simp [hchain, hp, hparent, hlt]))

/-- The chain of what stands in a chain is the end of it. -/
theorem suffix_of_mem_chain (h : q ∈ s.chain p) : q ≤ p ∧ s.chain q <:+ s.chain p := by
  induction p using Nat.strongRecOn with
  | ind p ih =>
    rcases chain_cases s p with hchain | hchain | ⟨r, hlt, hchain⟩
    · rw [hchain] at h
      cases h
    · rw [hchain, List.mem_singleton] at h
      exact h ▸ ⟨Nat.le_refl q, List.suffix_rfl⟩
    · rw [hchain, List.mem_cons] at h
      rcases h with rfl | h
      · exact ⟨Nat.le_refl q, List.suffix_rfl⟩
      · obtain ⟨hle, hsuffix⟩ := ih r hlt h
        exact ⟨by omega, hchain ▸ hsuffix.trans (List.suffix_cons p _)⟩

/-- Chains stay as sessions evolve. -/
theorem Evolves.chain_eq (h : Evolves s t) (hp : p < s.scopes.size) : t.chain p = s.chain p := by
  refine chain_congr fun q hq => ?_
  have hlt : q < s.scopes.size := Nat.lt_of_le_of_lt hq hp
  obtain ⟨found', hfound', -, hparent, -⟩ := h.scope (Array.getElem?_eq_getElem hlt)
  rw [hfound', Array.getElem?_eq_getElem hlt]
  simp [hparent]

/-- An evaluation leaves chains as they are. -/
theorem Evaluates.chain_eq (h : Evaluates s t) (p : Nat) : t.chain p = s.chain p := by
  rcases Nat.lt_or_ge p s.scopes.size with hlt | hge
  · exact h.toEvolves.chain_eq hlt
  · rw [chain_eq_nil hge, chain_eq_nil (h.size_eq ▸ hge)]

/-- In a valid session, the parent of a scope comes before it. -/
theorem lt_of_parent (hs : Valid s) {found : Scope} (hp : s.scopes[p]? = some found)
    (hparent : found.parent? = some q) : q < p := by
  by_cases hne : p = global
  · subst hne
    obtain ⟨root, hroot, hnone⟩ := hs.root
    rw [hp] at hroot
    cases hroot
    rw [hnone] at hparent
    cases hparent
  · obtain ⟨r, hr, hsome⟩ := hs.parent hp hne
    rw [hparent] at hsome
    cases hsome
    exact hr

/-- In a valid session, the chain of a scope goes on with that of its parent. -/
theorem chain_eq_cons (hs : Valid s) {found : Scope} (hp : s.scopes[p]? = some found)
    (hparent : found.parent? = some q) : s.chain p = p :: s.chain q := by
  rw [chain, hp]
  simp only [hparent]
  rw [if_pos (lt_of_parent hs hp hparent)]

theorem chain_eq_singleton {found : Scope} (hp : s.scopes[p]? = some found)
    (hnone : found.parent? = none) : s.chain p = [p] := by
  rw [chain, hp]
  simp only [hnone]

theorem chain_global (hs : Valid s) : s.chain global = [global] := by
  obtain ⟨root, hroot, hnone⟩ := hs.root
  exact chain_eq_singleton hroot hnone

/-- **Looking up a name ends in the global scope.** -/
theorem getLast?_chain (hs : Valid s) (hp : p < s.scopes.size) :
    (s.chain p).getLast? = some global := by
  induction p using Nat.strongRecOn with
  | ind p ih =>
    by_cases hne : p = global
    · subst hne
      rw [chain_global hs]
      rfl
    · have hfound := Array.getElem?_eq_getElem hp
      obtain ⟨q, hq, hparent⟩ := hs.parent hfound hne
      rw [chain_eq_cons hs hfound hparent, List.getLast?_cons, ih q hq (Nat.lt_trans hq hp)]
      rfl

end QuantityCalc.Session
