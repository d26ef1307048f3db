import QuantityCalc.Proofs.Session.Valid
import Mathlib.Data.List.Basic

/-!
# Two sessions side by side

Two runs of the same commands are compared: the second one starts in a session that resembles the
first one. An `Accord` says how far. The second session may have wider limits, errors of the first
run may or may not be errors of the second one, the lines written may differ in their text, and one
scope may bind other items on either side: it is behind a `Veil`. From a scope whose chain does not
meet the veil (`Visible`), both sessions show the same (`Alike.resolve`, `Alike.find?`).
-/

namespace QuantityCalc

open Session

/-- A scope that binds other items on either side. -/
structure Veil where
  /-- The scope. -/
  scope : Nat
  /-- Its items in the first session. -/
  items : Std.TreeMap String Item
  /-- Its items in the second session. -/
  items' : Std.TreeMap String Item

/-- How far two runs agree. -/
structure Accord where
  /-- What the first session keeps to. -/
  holds : Session → Prop
  /-- The lines that the first runner may be asked to run. -/
  admits : Session → List String → Prop
  /-- Whether errors of the first run are errors of the second one. -/
  errors : Prop
  /-- Whether the lines written have the same text. -/
  exact : Prop
  /-- Why the first run may halt where the second one goes on. -/
  excused : Halt → Prop
  /-- Why both runs may halt. -/
  shared : Halt → Prop
  /-- The scope behind the veil, if there is one. -/
  veil? : Option Veil
  invariant : Invariant holds
  unseen : ∀ {s : Session} {path : String} {h : Halt}, holds s → s.files.look path = .error h →
    shared h
  script : ∀ {s : Session} {path text : String} {found : Sighting}, holds s →
    s.files.look path = .ok found → found.text = .ok text →
      admits s ((Text.lines text.toList).map String.ofList)
  body : ∀ {s : Session} {name : String} {parent : Nat} {args : List (String × Quantity)}, holds s →
    ∀ ls, admits (s.enter name parent args) ls
  veiled : ∀ {s : Session}, holds s → ∀ v ∈ veil?, Valid s ∧
    ∀ (p : Nat) (name : String), s.item? p name ≠ some (.space v.scope)

variable {A : Accord} {s s' t : Session} {p q : Nat} {name : String}

/-- Options that are at least as wide as others. -/
structure Accord.Permits (A : Accord) (o o' : Options) : Prop where
  decimalComma : o'.decimalComma = o.decimalComma
  scriptDirs : o'.scriptDirs = o.scriptDirs
  lenient : o.lenientConversion = true → o'.lenientConversion = true
  callDepth : o.maxCallDepth ≤ o'.maxCallDepth
  nesting : o.maxNesting ≤ o'.maxNesting
  errors : A.errors → o'.lenientConversion = o.lenientConversion ∧
    o'.maxCallDepth = o.maxCallDepth ∧ o'.maxNesting = o.maxNesting
  exact : A.exact → o'.precision? = o.precision?

theorem Accord.Permits.refl (o : Options) : A.Permits o o :=
  ⟨rfl, rfl, id, Nat.le_refl _, Nat.le_refl _, fun _ => ⟨rfl, rfl, rfl⟩, fun _ => rfl⟩

/-- If errors are errors on both sides, the options differ in the precision only. -/
theorem Accord.Permits.eq_of_errors {o o' : Options} (h : A.Permits o o') (herrors : A.errors) :
    o' = { o with precision? := o'.precision? } := by
  obtain ⟨hlenient, hcalls, hnesting⟩ := h.errors herrors
  obtain ⟨comma, lenient, calls, nesting, precision?, dirs⟩ := o
  obtain ⟨comma', lenient', calls', nesting', precision?', dirs'⟩ := o'
  cases h.decimalComma
  cases hlenient
  cases hcalls
  cases hnesting
  cases h.scriptDirs
  rfl

/-- If errors count and limits are the same, there is no option that may differ. -/
theorem Accord.Permits.eq {o o' : Options} (h : A.Permits o o') (herrors : A.errors)
    (hexact : A.exact) : o' = o := by
  rw [h.eq_of_errors herrors, h.exact hexact]

/-- Whether a scope is behind the veil. -/
def Accord.Hides (A : Accord) (p : Nat) : Prop := ∃ v ∈ A.veil?, p = v.scope

/-- Sessions that are equal apart from what an accord allows. -/
structure Resembles (A : Accord) (s s' : Session) : Prop where
  current : s'.current = s.current
  depth : s'.depth = s.depth
  floor : s'.floor = s.floor
  system : s'.system = s.system
  files : s'.files = s.files
  options : A.Permits s.options s'.options
  size_eq : s'.scopes.size = s.scopes.size
  scope : ∀ {p : Nat}, ¬A.Hides p → s'.scopes[p]? = s.scopes[p]?
  veil : ∀ v ∈ A.veil?, ∃ found : Scope, s.scopes[v.scope]? = some { found with items := v.items } ∧
    s'.scopes[v.scope]? = some { found with items := v.items' }
  lines : s'.output.size = s.output.size
  output : A.exact → s'.output = s.output

/-- The chain of a scope does not meet the veil. -/
def Accord.Visible (A : Accord) (s : Session) (p : Nat) : Prop := ∀ q ∈ s.chain p, ¬A.Hides q

/-- Sessions that resemble each other, seen from a scope before the veil. -/
structure Alike (A : Accord) (s s' : Session) : Prop extends Resembles A s s' where
  holds : A.holds s
  visible : A.Visible s s.current

/-! ## What is visible -/

/-- What is visible from a scope is visible from each scope of its chain. -/
theorem Accord.Visible.mem (h : A.Visible s p) (hq : q ∈ s.chain p) : A.Visible s q :=
  fun r hr => h r ((suffix_of_mem_chain hq).2.subset hr)

/-- **A visible scope binds visible namespaces only.** -/
theorem Accord.Visible.space (h : A.Visible s p) (hs : A.holds s)
    (hitem : s.item? p name = some (.space q)) : A.Visible s q := by
  rintro r hr ⟨v, hv, rfl⟩
  obtain ⟨hvalid, hspace⟩ := A.veiled hs v hv
  cases hvalid.item hitem with
  | space hfound hparent =>
    rw [chain_eq_cons hvalid hfound hparent, List.mem_cons] at hr
    rcases hr with rfl | hr
    · exact hspace p name hitem
    · exact h _ hr ⟨v, hv, rfl⟩

/-- **A visible scope binds functions that see visible scopes only.** -/
theorem Accord.Visible.function (h : A.Visible s p) (hs : A.holds s) {f : UserFunction}
    (hitem : s.item? p name = some (.function f q)) : A.Visible s q := by
  rintro r hr ⟨v, hv, heq⟩
  obtain ⟨hvalid, -⟩ := A.veiled hs v hv
  cases hvalid.item hitem
  exact h r hr ⟨v, hv, heq⟩

/-- Whatever is found from the current scope is kept in a scope that is not behind the veil. -/
theorem visible_of_find? {item : Item} (h : A.Visible s s.current)
    (hfind : s.find? name = some (p, item)) : A.Visible s p ∧ s.item? p name = some item := by
  obtain ⟨q, hq, hitem⟩ := List.exists_of_findSome?_eq_some hfind
  obtain ⟨item', hitem', heq⟩ := Option.map_eq_some_iff.1 hitem
  cases heq
  exact ⟨h.mem hq, hitem'⟩

/-- Nothing that is kept at a home is behind the veil. -/
def Accord.Sees (A : Accord) (s : Session) : Home → Prop
  | .scope p => A.Visible s p
  | .system => True
  | .builtins => True

/-- Evaluation opens scopes and closes them, so it draws no veil over a home. -/
theorem Accord.Sees.evaluates {home : Home} (h : A.Sees s home) (he : Evaluates s t) :
    A.Sees t home := by
  cases home with
  | scope p =>
    have hchain := he.chain_eq p
    intro q hq
    exact h q (hchain ▸ hq)
  | system => trivial
  | builtins => trivial

/-- What an item stands for is kept where the item is, or in a scope below it. -/
theorem sees_ofItem {item : Item} (h : A.Visible s p) (hs : A.holds s)
    (hitem : s.item? p name = some item) : A.Sees s (Meaning.ofItem p item).home := by
  cases item with
  | space q => exact h.space hs hitem
  | unitSystem => trivial
  | var value => exact h
  | function f q => exact h
  | unit id => exact h

/-! ## What both sessions show -/

namespace Resembles

variable (h : Resembles A s s')
include h

theorem parent_eq (p : Nat) :
    (s'.scopes[p]?).map (·.parent?) = (s.scopes[p]?).map (·.parent?) := by
  by_cases hp : A.Hides p
  · obtain ⟨v, hv, rfl⟩ := hp
    obtain ⟨found, hfound, hfound'⟩ := h.veil v hv
    rw [hfound, hfound']
    rfl
  · rw [h.scope hp]

/-- The chain of a scope is the same in both sessions, whatever the scope binds. -/
theorem chain_eq (p : Nat) : s'.chain p = s.chain p := chain_congr fun q _ => h.parent_eq q

theorem scopeName_eq (p : Nat) : s'.scopeName p = s.scopeName p := by
  by_cases hp : A.Hides p
  · obtain ⟨v, hv, rfl⟩ := hp
    obtain ⟨found, hfound, hfound'⟩ := h.veil v hv
    simp [scopeName, hfound, hfound']
  · rw [scopeName, h.scope hp, scopeName]

/-- Apart from the veil, both sessions bind the same items. -/
theorem item?_eq (hp : ¬A.Hides p) (name : String) : s'.item? p name = s.item? p name := by
  rw [item?, h.scope hp, item?]

theorem not_hides (hp : A.Visible s p) : ¬A.Hides p := by
  rintro ⟨v, hv, rfl⟩
  obtain ⟨found, hfound, -⟩ := h.veil v hv
  have hlt := (Array.getElem?_eq_some_iff.1 hfound).1
  exact hp v.scope (mem_chain_self hlt) ⟨v, hv, rfl⟩

/-- At a home that is not behind the veil, both sessions find the same. -/
theorem itemAt?_eq {home : Home} (hhome : A.Sees s home) (name : String) :
    s'.itemAt? home name = s.itemAt? home name := by
  cases home with
  | scope p => exact h.item?_eq (h.not_hides hhome) name
  | system => rfl
  | builtins => rfl

theorem valueAt?_eq {home : Home} (hhome : A.Sees s home) (name : String) :
    s'.valueAt? home name = s.valueAt? home name := by
  rw [valueAt?, h.itemAt?_eq hhome, valueAt?]

theorem unit?_eq {home : Home} (hhome : A.Sees s home) (name : String) :
    s'.unit? home name = s.unit? home name := by
  simp only [Session.unit?, h.system, h.itemAt?_eq hhome]

theorem function?_eq {home : Home} (hhome : A.Sees s home) (name : String) :
    s'.function? home name = s.function? home name := by
  rw [function?, h.itemAt?_eq hhome, function?]

theorem meaningIn?_eq {home : Home} (hhome : A.Sees s home) (name : String) :
    s'.meaningIn? home name = s.meaningIn? home name := by
  cases home with
  | scope p => rw [meaningIn?, h.item?_eq (h.not_hides hhome), meaningIn?]
  | system => rw [meaningIn?, h.system, meaningIn?]
  | builtins => rfl

theorem candidates_eq (name : String) : s'.candidates name = s.candidates name := by
  rw [candidates, h.options.scriptDirs, candidates]

/-- The arguments of a call are bound in the same way, since their units are of one system. -/
theorem bindArguments_eq (f : UserFunction) (ps : List Parameter) (qs : List Quantity) :
    s'.bindArguments f ps qs = s.bindArguments f ps qs := by
  induction ps generalizing qs with
  | nil => rfl
  | cons p ps ih =>
    cases qs with
    | nil => rfl
    | cons q qs => simp only [bindArguments, h.system, ih]

/-- Without a veil, sessions that resemble each other differ in their options and in the lines
written only. -/
theorem eq_of_no_veil (hveil : A.veil? = none) :
    s' = { s with options := s'.options, output := s'.output } := by
  have hscopes : s'.scopes = s.scopes := by
    refine Array.ext_getElem? fun p => h.scope ?_
    rintro ⟨v, hv, -⟩
    rw [hveil] at hv
    cases hv
  obtain ⟨scopes, system, current, depth, floor, options, output, files⟩ := s
  obtain ⟨scopes', system', current', depth', floor', options', output', files'⟩ := s'
  cases hscopes
  cases h.system
  cases h.current
  cases h.depth
  cases h.floor
  cases h.files
  rfl

/-- Without a veil, sessions that write the same text differ in their options only. -/
theorem eq_of_unveiled (hveil : A.veil? = none) (hexact : A.exact) :
    s' = { s with options := s'.options } := by
  rw [h.eq_of_no_veil hveil, h.output hexact]

/-- Sessions that resemble each other in all respects are equal. -/
theorem eq_of_strict (hveil : A.veil? = none) (herrors : A.errors) (hexact : A.exact) : s' = s := by
  rw [h.eq_of_unveiled hveil hexact, h.options.eq herrors hexact]

end Resembles

/-- Without a veil, a session is like itself with options that are as wide. -/
theorem alike_options {o : Options} (hveil : A.veil? = none) (hs : A.holds s)
    (ho : A.Permits s.options o) : Alike A s { s with options := o } := by
  refine ⟨⟨rfl, rfl, rfl, rfl, rfl, ho, rfl, fun _ => rfl, fun v hv => ?_, rfl, fun _ => rfl⟩, hs,
    fun p _ hp => ?_⟩
  · rw [hveil] at hv
    cases hv
  · obtain ⟨v, hv, -⟩ := hp
    rw [hveil] at hv
    cases hv

/-- Without a veil, a session is alike to itself. -/
theorem alike_self (hveil : A.veil? = none) (hs : A.holds s) : Alike A s s :=
  alike_options hveil hs (.refl s.options)

/-- A namespace that is found at a home before the veil is before the veil, too. -/
theorem sees_of_meaningIn? {home : Home} {m : Meaning} (hhome : A.Sees s home) (hs : A.holds s)
    (hm : s.meaningIn? home name = some m) : A.Sees s m.home := by
  cases home with
  | scope p =>
    obtain ⟨item, hitem, rfl⟩ := Option.map_eq_some_iff.1 hm
    exact sees_ofItem hhome hs hitem
  | system =>
    obtain ⟨-, heq⟩ := Option.ite_none_right_eq_some.1 hm
    cases heq
    trivial
  | builtins =>
    obtain ⟨-, heq⟩ := Option.ite_none_right_eq_some.1 hm
    cases heq
    trivial

/-- A function that is found at a home before the veil is kept before the veil. -/
theorem sees_of_function? {home : Home} {f : UserFunction} (hhome : A.Sees s home)
    (hs : A.holds s) (hf : s.function? home name = some (f, q)) : A.Visible s q := by
  unfold function? at hf
  split at hf
  · rename_i f' q' hitem
    cases hf
    cases home with
    | scope p => exact hhome.function hs hitem
    | system => cases hitem
    | builtins => cases hitem
  · cases hf

namespace Alike

variable (h : Alike A s s')
include h

theorem not_hides_current : ¬A.Hides s.current := h.toResembles.not_hides h.visible

theorem visible_global : A.Visible s global := by
  rintro p hp ⟨v, hv, heq⟩
  obtain ⟨hvalid, -⟩ := A.veiled h.holds v hv
  have hglobal : global ∈ s.chain s.current :=
    List.mem_of_getLast? (getLast?_chain hvalid hvalid.current)
  exact (h.visible.mem hglobal) p hp ⟨v, hv, heq⟩

/-- **Both sessions find the same**, before the veil. -/
theorem find?_eq (name : String) : s'.find? name = s.find? name := by
  have hitem : ∀ q ∈ s.chain s.current,
      (s'.item? q name).map (q, ·) = (s.item? q name).map (q, ·) := by
    intro q hq
    rw [h.item?_eq (h.visible q hq)]
  rw [find?, find?, h.current, h.chain_eq, ← List.head?_filterMap, ← List.head?_filterMap,
    List.filterMap_congr hitem]

theorem meaning?_eq (name : String) : s'.meaning? name = s.meaning? name := by
  rw [meaning?, h.find?_eq, h.system, meaning?]

theorem sees_of_meaning? {m : Meaning} (hm : s.meaning? name = some m) : A.Sees s m.home := by
  unfold meaning? at hm
  split at hm
  · rename_i p item hfind
    cases hm
    obtain ⟨hvisible, hitem⟩ := visible_of_find? h.visible hfind
    exact sees_ofItem hvisible h.holds hitem
  · split at hm
    · cases hm
      trivial
    · split at hm
      · cases hm
        trivial
      · cases hm

/-- A path that starts before the veil leads to the same in both sessions, and does not get behind
it. -/
theorem follow_eq {m? : Option Meaning} (hm : ∀ m ∈ m?, A.Sees s m.home) (path last : String)
    (t : Text) : s'.follow path last m? t = s.follow path last m? t ∧
      ∀ m ∈ (s.follow path last m? t).meaning?, A.Sees s m.home := by
  induction hn : t.length using Nat.strongRecOn generalizing path last m? t with
  | ind n ih =>
    rw [follow.eq_def s', follow.eq_def s]
    split
    · rename_i t' m
      split
      · have hhome := hm m rfl
        split
        · rename_i word rest hscan
          have hlt := Name.length_lt_of_scan? hscan
          rw [List.length_cons] at hn
          simp only [h.meaningIn?_eq hhome]
          exact ih rest.length (by omega) (fun m' hm' => sees_of_meaningIn? hhome h.holds hm') _ _
            rest rfl
        · exact ⟨rfl, hm⟩
      · exact ⟨rfl, hm⟩
    · exact ⟨rfl, hm⟩

/-- **Both sessions resolve names alike**, and to what is before the veil. -/
theorem resolve_eq (name : String) (t : Text) : s'.resolve name t = s.resolve name t ∧
    ∀ m ∈ (s.resolve name t).meaning?, A.Sees s m.home := by
  rw [resolve, h.meaning?_eq]
  exact h.follow_eq (fun m hm => h.sees_of_meaning? hm) name name t

theorem draft?_eq : s'.draft? = s.draft? := by
  rw [draft?, h.current, h.scope h.not_hides_current, draft?]

theorem isDeclaring_eq : s'.isDeclaring = s.isDeclaring := by
  rw [isDeclaring, h.draft?_eq, isDeclaring]

/-- Both sessions list the same items, since those of the chain of the current scope are shown. -/
theorem visibleItems_eq : s'.visibleItems = s.visibleItems := by
  rw [visibleItems, visibleItems, h.current, h.chain_eq]
  refine List.foldl_ext _ _ _ fun shown q hq => ?_
  rw [itemsOf, h.scope (h.visible q hq), itemsOf]

end Alike

end QuantityCalc
