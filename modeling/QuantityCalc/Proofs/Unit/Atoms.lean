import QuantityCalc.Proofs.Except
import QuantityCalc.Unit.Resolution

/-!
# The atoms of unit expressions

The atoms of a unit expression are the symbols and the integers in it, however deeply its groups are
nested. A product exists only if all symbols in it denote something, and nothing else of the system
decides what it is.
-/

namespace QuantityCalc

/-- What unit expressions are made of. -/
inductive UnitAtom where
  /-- A unit symbol. -/
  | symbol (name : String)
  /-- A positive integer. -/
  | integer (n : Nat)

namespace UnitTerm

mutual

/-- The atoms of a term. -/
def atoms : UnitTerm → List UnitAtom
  | .symbol name => [.symbol name]
  | .integer n => [.integer n]
  | .group numerator denominator => factorsAtoms numerator ++ factorsAtoms denominator

/-- The atoms of a term with its exponent. -/
def factorAtoms : UnitTerm × Int8 → List UnitAtom
  | (term, _) => term.atoms

/-- The atoms of factors. -/
def factorsAtoms : List (UnitTerm × Int8) → List UnitAtom
  | [] => []
  | f :: fs => factorAtoms f ++ factorsAtoms fs

end

theorem factorsAtoms_append (fs gs : List UnitFactor) :
    factorsAtoms (fs ++ gs) = factorsAtoms fs ++ factorsAtoms gs := by
  induction fs with
  | nil => rfl
  | cons f fs ih => rw [List.cons_append, factorsAtoms, factorsAtoms, ih, List.append_assoc]

end UnitTerm

namespace UnitExpr

open UnitTerm

variable {e : UnitExpr} {f : UnitFactor} {a : UnitAtom} {below : Bool}

/-- The atoms of an expression. -/
def atoms (e : UnitExpr) : List UnitAtom :=
  factorsAtoms e.numerator ++ factorsAtoms e.denominator

theorem mem_atoms_push : a ∈ (e.push below f).atoms ↔ a ∈ e.atoms ∨ a ∈ f.1.atoms := by
  obtain ⟨term, n⟩ := f
  cases below <;>
    simp [atoms, push, factorsAtoms_append, factorsAtoms, factorAtoms, or_comm, or_left_comm]

theorem mem_atoms_single : a ∈ (⟨[f], []⟩ : UnitExpr).atoms ↔ a ∈ f.1.atoms := by
  obtain ⟨term, n⟩ := f
  simp [atoms, factorsAtoms, factorAtoms]

/-- An expression that is one symbol has no other atom. -/
theorem atoms_of_single? {name : String} (h : e.single? = some name) :
    e.atoms = [.symbol name] := by
  unfold single? at h
  split at h
  next hnumerator hdenominator =>
    cases h
    rw [atoms, hnumerator, hdenominator]
    rfl
  next => cases h

/-- Whether an atom may stand in what is read. -/
def Extent.Accepts : Extent → UnitAtom → Prop
  | whole, _ => True
  | longest known, .symbol name => known name = true
  | longest _, .integer _ => False

namespace Extent

variable {extent : Extent} {name : String} {n : Nat}

theorem accepts_symbol_iff : extent.Accepts (.symbol name) ↔ extent.admits name = true := by
  cases extent with
  | whole => exact ⟨fun _ => rfl, fun _ => trivial⟩
  | longest known => exact Iff.rfl

theorem accepts_integer_iff : extent.Accepts (.integer n) ↔ extent.mayStop = false := by
  cases extent with
  | whole => exact ⟨fun _ => rfl, fun _ => trivial⟩
  | longest known => exact ⟨False.elim, nofun⟩

end Extent

end UnitExpr

namespace UnitSystem

open UnitTerm

variable {s s' : UnitSystem}

/-! ## Products and what symbols denote -/

mutual

/-- **The product of a term depends on what its symbols denote.** -/
theorem termProduct_congr : ∀ {term : UnitTerm},
    (∀ name, .symbol name ∈ term.atoms → s'.lookup? name = s.lookup? name) →
    s'.termProduct term = s.termProduct term
  | .symbol name, h => by
    rw [termProduct, termProduct, h name List.mem_cons_self]
  | .integer n, _ => rfl
  | .group numerator denominator, h => by
    have hnumerator (a : UnitProduct) :
        s'.factorsProduct false a numerator = s.factorsProduct false a numerator :=
      factorsProduct_congr fun name hname => h name (List.mem_append_left _ hname)
    have hdenominator (a : UnitProduct) :
        s'.factorsProduct true a denominator = s.factorsProduct true a denominator :=
      factorsProduct_congr fun name hname => h name (List.mem_append_right _ hname)
    simp only [termProduct, hnumerator, hdenominator]

theorem factorProduct_congr : ∀ {f : UnitTerm × Int8},
    (∀ name, .symbol name ∈ factorAtoms f → s'.lookup? name = s.lookup? name) →
    s'.factorProduct f = s.factorProduct f
  | (term, n), h => by
    rw [factorProduct, factorProduct, termProduct_congr h]

theorem factorsProduct_congr {below : Bool} : ∀ {fs : List (UnitTerm × Int8)} {a : UnitProduct},
    (∀ name, .symbol name ∈ factorsAtoms fs → s'.lookup? name = s.lookup? name) →
    s'.factorsProduct below a fs = s.factorsProduct below a fs
  | [], _, _ => rfl
  | f :: fs, a, h => by
    have hf := factorProduct_congr fun name hname => h name (List.mem_append_left _ hname)
    have hfs (a : UnitProduct) : s'.factorsProduct below a fs = s.factorsProduct below a fs :=
      factorsProduct_congr fun name hname => h name (List.mem_append_right _ hname)
    simp only [factorsProduct, hf, hfs]

end

theorem contains_of_lookup? {name : String} {u : MeasureUnit} (h : s.lookup? name = some u) :
    s.contains name = true := by
  rw [contains, h, Option.isSome_some]

mutual

/-- **The symbols of a product denote something.** -/
theorem contains_of_termProduct : ∀ {term : UnitTerm} {p : UnitProduct},
    s.termProduct term = .ok p → ∀ {name}, .symbol name ∈ term.atoms → s.contains name = true
  | .symbol name, p, h, _, hname => by
    cases List.mem_singleton.1 hname
    rw [termProduct] at h
    split at h
    next => cases h
    next u hu => exact contains_of_lookup? hu
  | .integer n, _, _, _, hname => by
    cases List.mem_singleton.1 hname
  | .group numerator denominator, p, h, _, hname => by
    rw [termProduct] at h
    obtain ⟨a, ha, h⟩ := Except.bind_eq_ok.1 h
    rcases List.mem_append.1 hname with hname | hname
    · exact contains_of_factorsProduct ha hname
    · exact contains_of_factorsProduct h hname

theorem contains_of_factorProduct : ∀ {f : UnitTerm × Int8} {p : UnitProduct},
    s.factorProduct f = .ok p → ∀ {name}, .symbol name ∈ factorAtoms f → s.contains name = true
  | (term, n), p, h, _, hname => by
    rw [factorProduct] at h
    obtain ⟨a, ha, -⟩ := Except.bind_eq_ok.1 h
    exact contains_of_termProduct ha hname

theorem contains_of_factorsProduct {below : Bool} :
    ∀ {fs : List (UnitTerm × Int8)} {a p : UnitProduct}, s.factorsProduct below a fs = .ok p →
      ∀ {name}, .symbol name ∈ factorsAtoms fs → s.contains name = true
  | [], _, _, _, _, hname => by cases hname
  | f :: fs, a, p, h, _, hname => by
    rw [factorsProduct] at h
    obtain ⟨b, hb, h⟩ := Except.bind_eq_ok.1 h
    obtain ⟨c, -, h⟩ := Except.bind_eq_ok.1 h
    rcases List.mem_append.1 hname with hname | hname
    · exact contains_of_factorProduct hb hname
    · exact contains_of_factorsProduct h hname

end

/-! ## Units of expressions -/

variable {e : UnitExpr} {label name : String} {u : MeasureUnit}

/-- The unit of an expression depends on what its symbols denote. -/
theorem resolve_congr
    (h : ∀ name, .symbol name ∈ e.atoms → s'.lookup? name = s.lookup? name) :
    s'.resolve e label = s.resolve e label := by
  unfold resolve
  cases hsingle : e.single? with
  | some name =>
    have hname : s'.lookup? name = s.lookup? name :=
      h name (by rw [UnitExpr.atoms_of_single? hsingle]; exact List.mem_cons_self)
    simp only [hname]
  | none =>
    have hproduct : s'.product e = s.product e := termProduct_congr h
    simp only [hproduct]

/-- The unit of an expression that is one symbol is that of the symbol. -/
theorem lookup?_of_resolve (hsingle : e.single? = some name) (h : s.resolve e label = .ok u) :
    s.lookup? name = some u := by
  simp only [resolve, hsingle] at h
  split at h
  next v hv =>
    cases h
    exact hv
  next => cases h

/-- The symbols of an expression that has a unit denote something. -/
theorem contains_of_resolve (h : s.resolve e label = .ok u) (hname : .symbol name ∈ e.atoms) :
    s.contains name = true := by
  cases hsingle : e.single? with
  | some name' =>
    rw [UnitExpr.atoms_of_single? hsingle] at hname
    cases List.mem_singleton.1 hname
    exact contains_of_lookup? (lookup?_of_resolve hsingle h)
  | none =>
    simp only [resolve, hsingle] at h
    obtain ⟨p, hp, -⟩ := Except.bind_eq_ok.1 h
    exact contains_of_termProduct hp hname

end UnitSystem

end QuantityCalc
