import QuantityCalc.Proofs.Run.Reachable
import QuantityCalc.Proofs.Text.Order
import Mathlib.Data.List.Induction

/-!
# Visible items

The visible items are collected on the way outwards from the current scope, leaving out names that
were met before (`Session.visibleItems`). One name is looked up on the same way, which ends at the
first scope that binds it (`Session.find?`). `Session.Finds` is this way without a list of scopes:
from each scope that does not bind the name to its parent.

What a list of scopes shows and where it binds a name first are compared by adding one scope behind
the others (`mem_shownIn`, `pairwise_shownIn`). The scopes around the current one are such a list,
in which inner scopes come first (`pairwise_chain`). So in every reachable session the visible items
are those that names are found to be bound to, each name once, from the inner scopes to the outer
ones and in each scope in the order of names (`visibleItems_of_reachable`).
-/

namespace QuantityCalc.Session

variable {s : Session} {fs : List Frame} {p q r : Nat} {ps : List Nat} {name : String} {item : Item}

/-! ## Scopes inside each other -/

/-- The scope `q` is the parent of the scope `p`. -/
def HasParent (s : Session) (p q : Nat) : Prop :=
  ∃ found, s.scopes[p]? = some found ∧ found.parent? = some q

/-- The scope `p` lies inside the scope `q`. -/
def Inside (s : Session) : Nat → Nat → Prop := Relation.TransGen s.HasParent

/-- A scope has at most one parent. -/
theorem HasParent.eq (h : s.HasParent p q) (h' : s.HasParent p r) : q = r := by
  obtain ⟨found, hfound, hq⟩ := h
  obtain ⟨found', hfound', hr⟩ := h'
  rw [hfound] at hfound'
  cases hfound'
  rw [hq] at hr
  exact Option.some.inj hr

theorem HasParent.lt (hs : Valid s) (h : s.HasParent p q) : q < p := by
  obtain ⟨found, hfound, hparent⟩ := h
  exact lt_of_parent hs hfound hparent

/-- In a valid session, the scope outside comes first in the arena. -/
theorem Inside.lt (hs : Valid s) (h : s.Inside p q) : q < p := by
  induction h with
  | single h => exact h.lt hs
  | tail _ h ih => exact Nat.lt_trans (h.lt hs) ih

/-- The chain of a scope goes on with the chain of its parent. -/
theorem chain_step (hs : Valid s) (hp : p < s.scopes.size) :
    (s.chain p = [p] ∧ ∀ q, ¬s.HasParent p q) ∨
      ∃ q < p, s.HasParent p q ∧ s.chain p = p :: s.chain q := by
  have hfound := Array.getElem?_eq_getElem hp
  cases hparent : s.scopes[p].parent? with
  | none =>
    refine .inl ⟨chain_eq_singleton hfound hparent, ?_⟩
    rintro q ⟨found, hfound', hq⟩
    rw [hfound] at hfound'
    cases hfound'
    rw [hparent] at hq
    cases hq
  | some q =>
    have hq : s.HasParent p q := ⟨_, hfound, hparent⟩
    exact .inr ⟨q, hq.lt hs, hq, chain_eq_cons hs hfound hparent⟩

/-- The chain of a scope leads through the scopes that it lies inside. -/
theorem inside_of_mem_chain (hs : Valid s) (hp : p < s.scopes.size) (h : q ∈ s.chain p) :
    q = p ∨ s.Inside p q := by
  induction p using Nat.strongRecOn with
  | ind p ih =>
    rcases chain_step hs hp with ⟨hchain, -⟩ | ⟨r, hlt, hr, hchain⟩
    · rw [hchain, List.mem_singleton] at h
      exact .inl h
    · rw [hchain, List.mem_cons] at h
      rcases h with rfl | h
      · exact .inl rfl
      · rcases ih r hlt (Nat.lt_trans hlt hp) h with rfl | h
        · exact .inr (.single hr)
        · exact .inr (.head hr h)

/-- **Inner scopes come first** among the scopes around a scope. -/
theorem pairwise_chain (hs : Valid s) (hp : p < s.scopes.size) :
    (s.chain p).Pairwise s.Inside := by
  induction p using Nat.strongRecOn with
  | ind p ih =>
    rcases chain_step hs hp with ⟨hchain, -⟩ | ⟨q, hlt, hq, hchain⟩
    · rw [hchain]
      exact List.pairwise_singleton _ _
    · have hsize := Nat.lt_trans hlt hp
      rw [hchain]
      refine .cons (fun r hr => ?_) (ih q hlt hsize)
      rcases inside_of_mem_chain hs hsize hr with rfl | hr
      · exact .single hq
      · exact .head hq hr

/-! ## The way to one name -/

/-- On the way outwards from the scope `p`, the first scope that binds a name is `q`. -/
inductive Finds (s : Session) (name : String) : Nat → Nat → Item → Prop where
  | here {p : Nat} {item : Item} (h : s.item? p name = some item) : Finds s name p p item
  | outside {p q r : Nat} {item : Item} (hnone : s.item? p name = none) (hparent : s.HasParent p q)
    (h : Finds s name q r item) : Finds s name p r item

/-- The way to a name ends in the first scope, if that binds the name. -/
theorem finds_of_bound {bound : Item} (hbound : s.item? p name = some bound) :
    s.Finds name p q item ↔ (p, bound) = (q, item) := by
  constructor
  · intro h
    cases h with
    | here h => rw [Option.some.inj (hbound.symm.trans h)]
    | outside hnone =>
      rw [hbound] at hnone
      cases hnone
  · rintro ⟨⟩
    exact .here hbound

/-- The way to a name goes on at the parent, if the first scope does not bind the name. -/
theorem finds_of_unbound (hnone : s.item? p name = none) :
    s.Finds name p q item ↔ ∃ r, s.HasParent p r ∧ s.Finds name r q item := by
  constructor
  · intro h
    cases h with
    | here h =>
      rw [hnone] at h
      cases h
    | outside _ hparent h => exact ⟨_, hparent, h⟩
  · rintro ⟨r, hparent, h⟩
    exact .outside hnone hparent h

/-- The first of some scopes that binds a name, with the item. -/
def first? (s : Session) (name : String) (ps : List Nat) : Option (Nat × Item) :=
  ps.findSome? fun p => (s.item? p name).map (p, ·)

/-- A name is looked up in the chain of the current scope. -/
theorem find?_eq_first? (s : Session) (name : String) :
    s.find? name = s.first? name (s.chain s.current) := rfl

theorem first?_cons_of_bound (h : s.item? p name = some item) :
    s.first? name (p :: ps) = some (p, item) := by
  rw [first?, List.findSome?_cons, h]
  rfl

theorem first?_cons_of_unbound (h : s.item? p name = none) :
    s.first? name (p :: ps) = s.first? name ps := by
  rw [first?, List.findSome?_cons, h]
  rfl

/-- **A name is found on the way outwards**, scope by scope. -/
theorem first?_chain_iff (hs : Valid s) (hp : p < s.scopes.size) :
    s.first? name (s.chain p) = some (q, item) ↔ s.Finds name p q item := by
  induction p using Nat.strongRecOn with
  | ind p ih =>
    cases hitem : s.item? p name with
    | some bound =>
      have hfirst : s.first? name (s.chain p) = some (p, bound) := by
        rcases chain_step hs hp with ⟨hchain, -⟩ | ⟨r, -, -, hchain⟩
        all_goals rw [hchain, first?_cons_of_bound hitem]
      rw [hfirst, finds_of_bound hitem, Option.some.injEq]
    | none =>
      rw [finds_of_unbound hitem]
      rcases chain_step hs hp with ⟨hchain, hroot⟩ | ⟨r, hlt, hr, hchain⟩
      · rw [hchain, first?_cons_of_unbound hitem]
        constructor
        · rintro ⟨⟩
        · rintro ⟨r, hr, -⟩
          exact absurd hr (hroot r)
      · rw [hchain, first?_cons_of_unbound hitem, ih r hlt (Nat.lt_trans hlt hp)]
        constructor
        · intro h
          exact ⟨r, hr, h⟩
        · rintro ⟨r', hr', h⟩
          exact hr.eq hr' ▸ h

/-! ## What some scopes show -/

/-- The items of some scopes, without those whose names earlier scopes bind. -/
def shownIn (s : Session) (ps : List Nat) : List (String × Item) :=
  ps.foldl
    (fun shown scope =>
      shown ++ (s.itemsOf scope).filter fun (name, _) => !shown.any (·.1 = name))
    []

/-- The visible items are those that the chain of the current scope shows. -/
theorem visibleItems_eq_shownIn (s : Session) :
    s.visibleItems = s.shownIn (s.chain s.current) := rfl

/-- A scope behind the others shows its items apart from the names that they show. -/
theorem shownIn_concat (ps : List Nat) (p : Nat) : s.shownIn (ps ++ [p]) =
    s.shownIn ps ++ (s.itemsOf p).filter fun (name, _) => !(s.shownIn ps).any (·.1 = name) := by
  rw [shownIn, List.foldl_append]
  rfl

/-- A scope behind the others is looked at only if none of them binds the name. -/
theorem first?_concat (ps : List Nat) (p : Nat) : s.first? name (ps ++ [p]) =
    (s.first? name ps).or ((s.item? p name).map (p, ·)) := by
  rw [first?, List.findSome?_append, List.findSome?_singleton]
  rfl

theorem mem_of_first? (h : s.first? name ps = some (p, item)) : p ∈ ps := by
  obtain ⟨q, hq, h⟩ := List.exists_of_findSome?_eq_some h
  obtain ⟨_, -, heq⟩ := Option.map_eq_some_iff.1 h
  cases heq
  exact hq

/-- The items of a scope are those that its names are bound to. -/
theorem mem_itemsOf : (name, item) ∈ s.itemsOf p ↔ s.item? p name = some item := by
  rw [itemsOf, item?]
  cases s.scopes[p]? with
  | none => simp
  | some found => exact Std.TreeMap.mem_toList_iff_getElem?_eq_some

/-- The items of a scope stand in the order of their names. -/
theorem pairwise_itemsOf (p : Nat) : (s.itemsOf p).Pairwise fun a b => a.1 < b.1 := by
  rw [itemsOf]
  cases s.scopes[p]? with
  | none => exact .nil
  | some found =>
    have hordered : found.items.toList.Pairwise fun a b => compare a.1 b.1 = .lt :=
      Std.TreeMap.ordered_keys_toList
    exact hordered.imp compareOfLessAndEq_eq_lt.1

/-- A name is not among the items that are shown, if no scope that binds it was met. -/
theorem not_any_iff {shown : List (String × Item)} {met? : Option (Nat × Item)}
    (h : ∀ item, (name, item) ∈ shown ↔ ∃ p, met? = some (p, item)) :
    (!shown.any (·.1 = name)) = true ↔ met? = none := by
  rw [Bool.not_eq_true', List.any_eq_false, Option.eq_none_iff_forall_ne_some]
  constructor
  · rintro hany ⟨p, item⟩ hmet
    exact hany _ ((h item).2 ⟨p, hmet⟩) (decide_eq_true rfl)
  · rintro hnone ⟨name', item⟩ hmem heq
    obtain rfl : name' = name := of_decide_eq_true heq
    obtain ⟨p, hmet⟩ := (h item).1 hmem
    exact hnone _ hmet

/-- **What is shown is what is met first.** -/
theorem mem_shownIn :
    (name, item) ∈ s.shownIn ps ↔ ∃ p, s.first? name ps = some (p, item) := by
  induction ps using List.reverseRecOn generalizing item with
  | nil => simp [shownIn, first?]
  | append_singleton ps p ih =>
    rw [shownIn_concat, List.mem_append, List.mem_filter, ih, mem_itemsOf, not_any_iff fun _ => ih,
      first?_concat]
    cases s.first? name ps with
    | none => simp
    | some met => simp

/-- **Items are shown in the order of their scopes**, and those of one scope in the order of their
names. -/
theorem pairwise_shownIn {R : Nat → Nat → Prop} (h : ps.Pairwise R) :
    (s.shownIn ps).Pairwise fun a b => ∃ p q, s.first? a.1 ps = some (p, a.2) ∧
      s.first? b.1 ps = some (q, b.2) ∧ (R p q ∨ p = q ∧ a.1 < b.1) := by
  induction ps using List.reverseRecOn with
  | nil => exact .nil
  | append_singleton ps p ih =>
    obtain ⟨hps, -, hlast⟩ := List.pairwise_append.1 h
    -- what was met first still is, and what the last scope adds is met there
    have hold {a : String × Item} {q : Nat} (ha : s.first? a.1 ps = some (q, a.2)) :
        s.first? a.1 (ps ++ [p]) = some (q, a.2) := by
      rw [first?_concat, ha, Option.some_or]
    have hnew {a : String × Item} (ha : a ∈ (s.itemsOf p).filter fun (name, _) =>
        !(s.shownIn ps).any (·.1 = name)) : s.first? a.1 (ps ++ [p]) = some (p, a.2) := by
      obtain ⟨hitem, hhidden⟩ := List.mem_filter.1 ha
      rw [first?_concat, (not_any_iff fun _ => mem_shownIn).1 hhidden, mem_itemsOf.1 hitem]
      rfl
    rw [shownIn_concat]
    refine List.pairwise_append.2 ⟨(ih hps).imp ?_, ?_, fun a ha b hb => ?_⟩
    · rintro a b ⟨q, r, ha, hb, hqr⟩
      exact ⟨q, r, hold ha, hold hb, hqr⟩
    · refine List.Pairwise.imp_of_mem ?_ ((pairwise_itemsOf p).filter _)
      intro a b ha hb hlt
      exact ⟨p, p, hnew ha, hnew hb, .inr ⟨rfl, hlt⟩⟩
    · obtain ⟨q, hq⟩ := mem_shownIn.1 ha
      exact ⟨q, p, hold hq, hnew hb, .inl (hlast q (mem_of_first? hq) p List.mem_cons_self)⟩

/-! ## What a session shows -/

/-- The binding `a` has its place before `b`: it stands in an inner scope, or in the same scope
under a name that comes first in the order of bytes. -/
def Precedes (s : Session) (a b : String × Item) : Prop :=
  ∃ p q, s.find? a.1 = some (p, a.2) ∧ s.find? b.1 = some (q, b.2) ∧
    (s.Inside p q ∨ p = q ∧ a.1.toUTF8.data.toList < b.1.toUTF8.data.toList)

/-- Of two bindings of one name, neither precedes the other. -/
theorem Precedes.name_ne (hs : Valid s) {a b : String × Item} (h : s.Precedes a b) :
    a.1 ≠ b.1 := by
  obtain ⟨p, q, ha, hb, hpq⟩ := h
  intro heq
  rw [heq] at ha
  obtain ⟨rfl, -⟩ := Prod.mk.inj (Option.some.inj (ha.symm.trans hb))
  rcases hpq with hpq | ⟨-, hlt⟩
  · exact Nat.lt_irrefl p (hpq.lt hs)
  · rw [heq] at hlt
    exact List.lt_irrefl _ hlt

/-- **What is listed is what names are found to be bound to.**. -/
theorem mem_visibleItems :
    (name, item) ∈ s.visibleItems ↔ ∃ p, s.find? name = some (p, item) := by
  rw [visibleItems_eq_shownIn, find?_eq_first?]
  exact mem_shownIn

/-- The list of scopes and the way from scope to parent find the same. -/
theorem find?_eq_some_iff (hs : Valid s) :
    s.find? name = some (p, item) ↔ s.Finds name s.current p item := by
  rw [find?_eq_first?]
  exact first?_chain_iff hs hs.current

/-- **What is listed stands in order**, from the inner scopes to the outer ones. -/
theorem pairwise_visibleItems (hs : Valid s) : s.visibleItems.Pairwise s.Precedes := by
  rw [visibleItems_eq_shownIn]
  refine (pairwise_shownIn (pairwise_chain hs hs.current)).imp ?_
  rintro a b ⟨p, q, ha, hb, hpq⟩
  exact ⟨p, q, ha, hb, hpq.imp_right fun ⟨heq, hlt⟩ => ⟨heq, Text.toUTF8_lt_of_lt hlt⟩⟩

/-- **The visible items are those that are found.** In every reachable session, also within calls,
each name is listed at most once, and it is listed with an item if and only if it is found to be
bound to that item. It is found by going outwards from the current scope, from each scope that does
not bind it to its parent. Items of inner scopes come first, and those of one scope come in the
order of bytes of their names. -/
theorem visibleItems_of_reachable (h : Reachable fs s) :
    (s.visibleItems.map (·.1)).Nodup ∧
    (∀ name item, (name, item) ∈ s.visibleItems ↔ ∃ p, s.find? name = some (p, item)) ∧
    (∀ name p item, s.find? name = some (p, item) ↔ s.Finds name s.current p item) ∧
    s.visibleItems.Pairwise s.Precedes := by
  have hs := (stack_of_reachable h).valid
  have hpairwise := pairwise_visibleItems hs
  have hnodup : (s.visibleItems.map (·.1)).Nodup :=
    List.pairwise_map.2 (hpairwise.imp fun hab => hab.name_ne hs)
  exact ⟨hnodup, fun _ _ => mem_visibleItems, fun _ _ _ => find?_eq_some_iff hs, hpairwise⟩

/-- A parameter hides the function that is called, and the global scope is seen behind it. -/
theorem visibleItems_of_reachable_hidden : ∃ s, Reachable [Entry.sample.frame] s ∧
    s.current = 1 ∧ s.item? global "f" = some (.function ⟨"f", [], []⟩ global) ∧
    ("f", .var (.plain 1)) ∈ s.visibleItems ∧
    ("f", .function ⟨"f", [], []⟩ global) ∉ s.visibleItems ∧
    ("SI", .unitSystem) ∈ s.visibleItems := by
  have hsample : Reachable [] Entry.sample :=
    (Reachable.start _ _).step (.function _ registerFunction_sample)
  have hcall := hsample.enter (.function Entry.function?_sample) Nat.one_pos [("f", .plain 1)]
  obtain ⟨-, hmem, hfind, -⟩ := visibleItems_of_reachable hcall
  have hvar := (hfind "f" 1 (.var (.plain 1))).2 (.here rfl)
  have hsystem := (hfind "SI" global .unitSystem).2 (.outside rfl ⟨_, rfl, rfl⟩ (.here rfl))
  refine ⟨_, hcall, rfl, rfl, (hmem _ _).2 ⟨1, hvar⟩, fun h => ?_, (hmem _ _).2 ⟨global, hsystem⟩⟩
  obtain ⟨p, hfunction⟩ := (hmem _ _).1 h
  rw [hvar] at hfunction
  cases hfunction

end QuantityCalc.Session
