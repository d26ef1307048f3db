import QuantityCalc.Proofs.Session.Apart

/-!
# Paths to items

The first name of a path is looked up from the current scope, and each further one in the namespace
before it (`Session.Binds`). Since namespaces stand apart, two paths that lead to one namespace are
equal (`Binds.path_eq`). So an item that is bound to the last name of a path changes what that path
and the paths that go on from it are bound to, and no other (`Binds.insert`).

Where variables are written is found in the same way: a written path is bound to what was written
(`binds_of_written`).
-/

namespace QuantityCalc.Session

variable {s t : Session} {p q id : Nat} {name m : String} {item item' : Item}
  {path path' : List String}

/-- What a path is bound to, and in which scope. -/
inductive Binds (s : Session) : List String → Nat → Item → Prop where
  | first {name : String} {p : Nat} {item : Item} (h : s.find? name = some (p, item)) :
    Binds s [name] p item
  | inner {path : List String} {p id : Nat} {name : String} {item : Item}
    (h : Binds s path p (.space id)) (hitem : s.item? id name = some item) :
    Binds s (path ++ [name]) id item

/-- Where the last name of a path is written: in a scope where names are looked up, or in the
namespace before it. -/
inductive Receives (s : Session) : List String → Nat → String → Prop where
  | first {p : Nat} (name : String) (h : p ∈ s.chain s.current) : Receives s [name] p name
  | inner {path : List String} {p id : Nat} (name : String) (h : Binds s path p (.space id)) :
    Receives s (path ++ [name]) id name

theorem item?_of_find? (h : s.find? name = some (p, item)) :
    p ∈ s.chain s.current ∧ s.item? p name = some item := by
  obtain ⟨q, hq, h⟩ := List.exists_of_findSome?_eq_some h
  obtain ⟨item', hitem, heq⟩ := Option.map_eq_some_iff.1 h
  cases heq
  exact ⟨hq, hitem⟩

theorem Binds.item? (h : Binds s path p item) :
    ∃ name, path.getLast? = some name ∧ s.item? p name = some item := by
  cases h with
  | first h => exact ⟨_, rfl, (item?_of_find? h).2⟩
  | inner _ hitem => exact ⟨_, List.getLast?_concat, hitem⟩

theorem Binds.isSpace (h : Binds s path p (.space id)) : s.IsSpace id := by
  cases h with
  | first h => exact ⟨p, _, (item?_of_find? h).2⟩
  | inner _ hitem => exact ⟨p, _, hitem⟩

/-- **Paths to one namespace are equal.** -/
theorem Binds.path_eq (hs : Valid s) (ha : Apart s) (h : Binds s path p (.space id))
    (h' : Binds s path' q (.space id)) : path = path' := by
  generalize hitem : Item.space id = item at h
  induction h generalizing id q path' with
  | first h =>
    subst hitem
    obtain ⟨hp, hitem⟩ := item?_of_find? h
    cases h' with
    | first h' =>
      obtain ⟨-, rfl⟩ := ha.eq_of_space hs hitem (item?_of_find? h').2
      rfl
    | inner h' hitem' =>
      -- a namespace around the second one would be where names are looked up
      obtain ⟨rfl, -⟩ := ha.eq_of_space hs hitem hitem'
      exact absurd h'.isSpace (ha.current _ hp)
  | inner h hbound ih =>
    subst hitem
    cases h' with
    | first h' =>
      obtain ⟨hp, hitem'⟩ := item?_of_find? h'
      obtain ⟨rfl, -⟩ := ha.eq_of_space hs hbound hitem'
      exact absurd h.isSpace (ha.current _ hp)
    | inner h' hitem' =>
      obtain ⟨rfl, rfl⟩ := ha.eq_of_space hs hbound hitem'
      rw [ih h' rfl]

/-! ## Binding an item -/

theorem item?_insert_of_ne (h : ¬(q = p ∧ m = name)) :
    (s.insert p name item).item? q m = s.item? q m := by
  rw [item?, scopes_insert]
  split
  · rename_i heq
    have hname : ¬compare name m = .eq := fun hcompare =>
      h ⟨heq.symm, (Std.LawfulEqCmp.eq_of_compare hcompare).symm⟩
    rw [item?]
    cases s.scopes[q]? with
    | none => rfl
    | some found => simp [Std.TreeMap.getElem?_insert, hname]
  · rfl

theorem chain_insert (q : Nat) : (s.insert p name item).chain q = s.chain q := by
  refine chain_congr fun r _ => ?_
  rw [scopes_insert]
  split
  · cases s.scopes[r]? <;> rfl
  · rfl

/-- A name is found where it was, if the scopes that do not bind it still do not. -/
theorem find?_insert {bound : Item} (h : s.find? m = some (q, item'))
    (hself : (s.insert p name item).item? q m = some bound)
    (hnone : ∀ r, s.item? r m = none → (s.insert p name item).item? r m = none ∨
      r ∉ s.chain s.current) : (s.insert p name item).find? m = some (q, bound) := by
  obtain ⟨before, r, after, hchain, hr, hbefore⟩ := List.findSome?_eq_some_iff.1 h
  obtain ⟨_, -, heq⟩ := Option.map_eq_some_iff.1 hr
  cases heq
  rw [find?, chain_insert]
  refine List.findSome?_eq_some_iff.2 ⟨before, q, after, hchain, by rw [hself]; rfl, fun r hr => ?_⟩
  have hold := hbefore r hr
  rw [Option.map_eq_none_iff] at hold ⊢
  exact (hnone r hold).resolve_right fun hmem => hmem (hchain ▸ List.mem_append_left _ hr)

theorem find?_insert_of_ne (h : s.find? m = some (q, item'))
    (hne : ∀ r ∈ s.chain s.current, ¬(r = p ∧ m = name)) :
    (s.insert p name item).find? m = some (q, item') := by
  obtain ⟨hq, hitem⟩ := item?_of_find? h
  refine find?_insert h ((item?_insert_of_ne (hne q hq)).trans hitem) fun r hnone => ?_
  by_cases hr : r ∈ s.chain s.current
  · exact .inl ((item?_insert_of_ne (hne r hr)).trans hnone)
  · exact .inr hr

/-- An item takes the place of the one that is found. -/
theorem find?_insert_found (h : s.find? name = some (p, item')) :
    (s.insert p name item).find? name = some (p, item) := by
  obtain ⟨-, hitem⟩ := item?_of_find? h
  refine find?_insert h (item?_insert_self (lt_size_of_item? hitem)) fun r hnone => .inl ?_
  rw [item?_insert_of_ne, hnone]
  rintro ⟨rfl, -⟩
  rw [hitem] at hnone
  cases hnone

theorem find?_insert_current (hs : Valid s) :
    (s.insert s.current name item).find? name = some (s.current, item) := by
  rw [find?, chain_insert]
  have hmem := mem_chain_self hs.current
  have hitem : (s.insert s.current name item).item? s.current name = some item :=
    item?_insert_self hs.current
  change (s.chain s.current).findSome? _ = _
  rcases chain_cases s s.current with hchain | hchain | ⟨q, -, hchain⟩
  · rw [hchain] at hmem
    cases hmem
  · rw [hchain]
    simp [hitem]
  · rw [hchain]
    simp [hitem]

/-- **Other paths are bound to what they were**, if they do not go on from the one that an item is
bound to. -/
theorem Binds.insert (hs : Valid s) (ha : Apart s) (hpath : Receives s path p name)
    (h : Binds s path' q item') (hne : ¬path <+: path') :
    Binds (s.insert p name item) path' q item' := by
  induction h with
  | first h =>
    refine .first (find?_insert_of_ne h fun r hr => ?_)
    rintro ⟨rfl, rfl⟩
    cases hpath with
    | first => exact hne List.prefix_rfl
    | inner _ h' => exact ha.current _ hr h'.isSpace
  | inner h hitem ih =>
    refine .inner (ih fun hfront => hne (hfront.trans (List.prefix_append _ _)))
      ((item?_insert_of_ne ?_).trans hitem)
    rintro ⟨rfl, rfl⟩
    cases hpath with
    | first _ hmem => exact ha.current _ hmem h.isSpace
    | inner _ h' => exact hne (h.path_eq hs ha h' ▸ List.prefix_rfl)

/-! ## Writing variables -/

variable {text : String} {value : Quantity}

theorem segments_intercalate (hne : path ≠ []) (hdot : ∀ name ∈ path, '.' ∉ name.toList) :
    segments (".".intercalate path) = path := by
  have hlists : ∀ t ∈ path.map String.toList, '.' ∉ t := by simpa using hdot
  rw [segments, String.toList_intercalate]
  change (List.splitOn '.' (['.'].intercalate (path.map String.toList))).map String.ofList = path
  rw [List.splitOn_intercalate '.' hlists (by simpa using hne), List.map_map]
  simp

theorem binds_of_foldlM {inner : List String}
    (h : inner.foldlM (fun scope name => scopeOf name (s.item? scope name)) p = .ok id)
    (hp : Binds s path q (.space p)) : ∃ q', Binds s (path ++ inner) q' (.space id) := by
  induction inner generalizing p q path with
  | nil =>
    cases h
    exact ⟨q, by simpa using hp⟩
  | cons name inner ih =>
    obtain ⟨p', hp', h⟩ := Except.bind_eq_ok.1 h
    obtain ⟨q', hq'⟩ := ih h (hp.inner (scopeOf_eq_ok hp'))
    exact ⟨q', by simpa using hq'⟩

/-- **A path is written where it is looked up**: a name in the current scope, and the last name of a
longer path in the namespace that the names before it lead to. -/
theorem eq_or_binds_of_target (hne : path ≠ []) (hdot : ∀ name ∈ path, '.' ∉ name.toList)
    (h : s.target (".".intercalate path) = .ok (p, name)) :
    (path = [name] ∧ p = s.current) ∨
      ∃ front q, path = front ++ [name] ∧ Binds s front q (.space p) := by
  obtain ⟨front, last, rfl⟩ : ∃ front last, path = front ++ [last] :=
    ⟨_, _, (List.dropLast_concat_getLast hne).symm⟩
  unfold target lastSegment at h
  rw [segments_intercalate hne hdot, List.dropLast_concat, List.getLastD_concat] at h
  cases front with
  | nil =>
    cases h
    exact .inl ⟨by simp, rfl⟩
  | cons first inner =>
    obtain ⟨r, hr, h⟩ := Except.bind_eq_ok.1 h
    obtain ⟨r', hr', h⟩ := Except.bind_eq_ok.1 h
    cases h
    obtain ⟨⟨p', item⟩, hfind, heq⟩ := Option.map_eq_some_iff.1 (scopeOf_eq_ok hr)
    cases heq
    obtain ⟨q, hq⟩ := binds_of_foldlM hr' (.first hfind)
    exact .inr ⟨first :: inner, q, rfl, hq⟩

/-- A path is bound to the variable that was defined. -/
theorem binds_of_define (hs : Valid s) (ha : Apart s) (hne : path ≠ [])
    (hdot : ∀ name ∈ path, '.' ∉ name.toList)
    (h : s.afterDefine (".".intercalate path) value = .ok t) :
    ∃ p name, t = s.insert p name (.var value) ∧ Receives s path p name ∧
      Binds t path p (.var value) := by
  obtain ⟨⟨p, name⟩, htarget, h⟩ := Except.bind_eq_ok.1 h
  have ht := eq_insert_of_bind h
  subst ht
  rcases eq_or_binds_of_target hne hdot htarget with ⟨rfl, rfl⟩ | ⟨front, q, rfl, hfront⟩
  · exact ⟨_, name, rfl, .first name (mem_chain_self hs.current),
      .first (find?_insert_current hs)⟩
  · have hreceives : Receives s (front ++ [name]) p name := .inner name hfront
    have hshort : ¬front ++ [name] <+: front := by
      intro hle
      have hlength := hle.length_le
      simp only [List.length_append, List.length_singleton] at hlength
      omega
    exact ⟨p, name, rfl, hreceives, (hfront.insert hs ha hreceives hshort).inner
      (item?_insert_self (lt_size_of_isSpace hs hfront.isSpace))⟩

/-- **A written path is bound to what was written.** -/
theorem binds_of_written (hs : Valid s) (ha : Apart s) (hne : path ≠ [])
    (hdot : ∀ name ∈ path, '.' ∉ name.toList)
    (h : s.afterDefine (".".intercalate path) value = .ok t ∨
      s.afterAssign (".".intercalate path) value = .ok t) :
    ∃ p name, t = s.insert p name (.var value) ∧ Receives s path p name ∧
      Binds t path p (.var value) := by
  rcases h with h | h
  · exact binds_of_define hs ha hne hdot h
  · unfold afterAssign at h
    split at h
    · exact binds_of_define hs ha hne hdot h
    · rename_i hdotted
      -- without a point there is one name
      have hsingle : path = [".".intercalate path] := by
        match path, hne with
        | [name], _ => simp
        | first :: second :: names, _ =>
          simp [isDotted, String.intercalate_cons_cons] at hdotted
      rw [hsingle]
      generalize ".".intercalate path = name at h
      split at h
      · rename_i q old hfind
        cases h
        obtain ⟨hq, -⟩ := item?_of_find? hfind
        exact ⟨q, name, rfl, .first name hq, .first (find?_insert_found hfind)⟩
      · cases h
      · cases h
        exact ⟨_, name, rfl, .first name (mem_chain_self hs.current),
          .first (find?_insert_current hs)⟩

end QuantityCalc.Session
