import QuantityCalc.Proofs.Label.System
import QuantityCalc.Proofs.Unit.Grammar

/-!
# Labels of units

A label that is a symbol says what the unit is. The text of a dimension is a symbol for the base
dimensions only, and there it is the symbol of the coherent unit (`eq_base_of_isSymbol`). A unit
expression whose text is a symbol is that symbol alone (`single?_of_isSymbol`). So the units that
are made from expressions and dimensions are backed, like those that symbols denote.
-/

namespace QuantityCalc

theorem not_isSymbol_of_mem {label : String} {c : Char} (hc : UnitExpr.isSymbolChar c = false)
    (h : c ∈ label.toList) : ¬IsSymbol label := by
  intro hsymbol
  rw [hsymbol.2 c h] at hc
  cases hc

/-! ## The text of a dimension -/

namespace Dimension

variable {d : Dimension} {b : BaseDimension}

theorem mem_intercalate {l : List String} (h : 2 ≤ l.length) :
    '*' ∈ ("*".intercalate l).toList := by
  match l with
  | [] | [_] => simp at h
  | a :: a' :: l => simp [String.intercalate_cons_cons]

theorem eq_one_of_isSymbol_power {exponent : Int} (h : IsSymbol (power b exponent)) :
    exponent = 1 := by
  refine Decidable.byContradiction fun hne => ?_
  refine not_isSymbol_of_mem (c := '^') (by decide) ?_ h
  simp [power, if_neg hne]

theorem mem_writingOrder (b : BaseDimension) : b ∈ writingOrder := by
  cases b <;> decide

theorem eq_base_of_filter (habove : writingOrder.filter (fun c => 0 < (d.exponent c).toInt) = [b])
    (hbelow : writingOrder.filter (fun c => (d.exponent c).toInt < 0) = [])
    (hone : (d.exponent b).toInt = 1) : d = base b := by
  refine ext_exponent fun c => Int8.toInt_inj.1 ?_
  rw [base, exponent_ofExponents]
  split
  next heq =>
    rw [heq, hone]
    rfl
  next hne =>
    have hpos : ¬0 < (d.exponent c).toInt := by
      intro hpos
      have hmem : c ∈ writingOrder.filter (fun c => 0 < (d.exponent c).toInt) :=
        List.mem_filter.2 ⟨mem_writingOrder c, decide_eq_true hpos⟩
      rw [habove, List.mem_singleton] at hmem
      exact hne hmem
    have hneg : ¬(d.exponent c).toInt < 0 := by
      intro hneg
      have hmem : c ∈ writingOrder.filter (fun c => (d.exponent c).toInt < 0) :=
        List.mem_filter.2 ⟨mem_writingOrder c, decide_eq_true hneg⟩
      rw [hbelow] at hmem
      cases hmem
    rw [Int8.toInt_zero]
    omega

/-- **The text of a dimension is a symbol for base dimensions only.** -/
theorem eq_base_of_isSymbol (h : IsSymbol d.render) : ∃ b, d = base b ∧ d.render = b.symbol := by
  unfold render at h ⊢
  simp only at h ⊢
  generalize habove : writingOrder.filter (fun c => 0 < (d.exponent c).toInt) = above at h ⊢
  generalize hbelow : writingOrder.filter (fun c => (d.exponent c).toInt < 0) = below at h ⊢
  cases above with
  | nil =>
    simp only [List.isEmpty_nil, if_true] at h
    match below with
    | [] => exact absurd rfl h.1
    | [b] =>
      -- A negative power has a caret.
      have hmem : b ∈ writingOrder.filter (fun c => (d.exponent c).toInt < 0) := by
        rw [hbelow]
        exact List.mem_singleton_self b
      have hneg := of_decide_eq_true (List.mem_filter.1 hmem).2
      have hone : (d.exponent b).toInt = 1 := eq_one_of_isSymbol_power h
      omega
    | b :: b' :: below =>
      exact absurd h (not_isSymbol_of_mem (by decide) (mem_intercalate (by simp)))
  | cons b above =>
    simp only [List.isEmpty_cons, Bool.false_eq_true, if_false] at h ⊢
    cases below with
    | cons b' below =>
      have hslash : '/' ∈ (String.join ((b' :: below).map fun b =>
          "/" ++ power b (-(d.exponent b).toInt))).toList := by
        simp [String.toList_join]
      refine absurd h (not_isSymbol_of_mem (c := '/') (by decide) ?_)
      rw [String.toList_append]
      exact List.mem_append_right _ hslash
    | nil =>
      cases above with
      | cons b' above =>
        refine absurd h (not_isSymbol_of_mem (c := '*') (by decide) ?_)
        rw [String.toList_append]
        exact List.mem_append_left _ (mem_intercalate (by simp))
      | nil =>
        have hpower : IsSymbol (power b (d.exponent b).toInt) := by
          simpa [String.join] using h
        have hone := eq_one_of_isSymbol_power hpower
        refine ⟨b, eq_base_of_filter habove hbelow hone, ?_⟩
        simp [String.join, power, hone]

end Dimension

/-! ## Symbols as unit expressions -/

namespace UnitExpr

variable {e : UnitExpr} {name : String}

theorem isTerm_of_isSymbol (h : IsSymbol name) : IsTerm name.toList (.symbol name) := by
  have hterm := IsTerm.symbol h.1 h.2
  rwa [String.ofList_toList] at hterm

theorem isExpression_symbol (h : IsSymbol name) : IsExpression name.toList (symbol name) := by
  simpa using IsExpression.factor (.mk (isTerm_of_isSymbol h) .one)

theorem single?_of_isSymbol (he : IsExpression name.toList e) (h : IsSymbol name) :
    e.single?.isSome = true := by
  rw [eq_symbol_of_isExpression he h.2]
  rfl

mutual

theorem isSymbol_of_isTerm {t : Text} {term : UnitTerm} : IsTerm t term →
    ∀ {name}, .symbol name ∈ term.atoms → IsSymbol name
  | .symbol hne ht, _, hname => by
    cases List.mem_singleton.1 hname
    rw [IsSymbol, String.toList_ofList]
    exact ⟨hne, ht⟩
  | .integer .., _, hname => by cases List.mem_singleton.1 hname
  | .group he, _, hname => isSymbol_of_isExpression he hname

theorem isSymbol_of_isFactor {t : Text} {f : UnitFactor} : IsFactor t f →
    ∀ {name}, .symbol name ∈ f.1.atoms → IsSymbol name
  | .mk hterm _, _, hname => isSymbol_of_isTerm hterm hname

/-- The symbols in an expression can be the symbols of units. -/
theorem isSymbol_of_isExpression {t : Text} {e : UnitExpr} : IsExpression t e →
    ∀ {name}, .symbol name ∈ e.atoms → IsSymbol name
  | .factor hf, _, hname => isSymbol_of_isFactor hf (mem_atoms_single.1 hname)
  | .push he _ hf, _, hname =>
    (mem_atoms_push.1 hname).elim (isSymbol_of_isExpression he) (isSymbol_of_isFactor hf)

end

end UnitExpr

/-! ## Units that are made -/

theorem MeasureUnit.isAffine_of_offset {u : MeasureUnit} (h : u.offset = 0) :
    u.isAffine = false := by
  have hzero : ((0 : Float) != 0) = false := by decide +kernel
  rw [isAffine, h, hzero]

namespace UnitSystem

variable {s : UnitSystem} {u : MeasureUnit} {e : UnitExpr} {label : String}

/-- The coherent units of base dimensions are the first ones of the international system. -/
theorem definition_base (b : BaseDimension) :
    ∃ d, international.definitions[b.index]? = some d ∧ d.symbol = b.symbol ∧ d.kind = .base b := by
  rw [getElem?_international]
  cases b <;> exact ⟨_, rfl, rfl, rfl⟩

/-- The symbol of a base dimension denotes its coherent unit. -/
theorem Sound.lookup?_base (hs : s.Sound) (b : BaseDimension) :
    s.lookup? b.symbol = some ⟨b.symbol, .base b, 1, 0, .named⟩ := by
  obtain ⟨d, hd, hsymbol, hkind⟩ := definition_base b
  have hd := hs.grows.definition hd
  have hid : s.idOf? b.symbol = some b.index := hsymbol ▸ s.indexed.idOf?_symbol hd
  simp only [lookup?, hid]
  rw [Registry.unit?, hd]
  simp only [hkind, hsymbol]

theorem resolve_symbol {name : String} (h : s.lookup? name = some u) :
    s.resolve (.symbol name) label = .ok u := by
  have hsingle : (UnitExpr.symbol name).single? = some name := rfl
  simp only [resolve, hsingle, h]

/-- The unit of an expression that is no symbol is labelled as it is asked for. -/
theorem symbol_of_resolve (hsingle : e.single? = none) (h : s.resolve e label = .ok u) :
    u.symbol = label := by
  simp only [resolve, hsingle] at h
  obtain ⟨p, -, h⟩ := Except.bind_eq_ok.1 h
  cases h
  rfl

/-- **Coherent units are backed**, also those of base dimensions, which have a symbol. -/
theorem Sound.backs_coherent (hs : s.Sound) (d : Dimension) : s.Backs (.coherent d) := by
  by_cases h : IsSymbol d.render
  · obtain ⟨b, rfl, hrender⟩ := Dimension.eq_base_of_isSymbol h
    exact (backs_of_lookup? (hs.lookup?_base b)).congr hrender rfl
  · exact backs_of_not_isSymbol h

/-- The unit of an expression that is no symbol is backed. -/
theorem backs_of_resolve (he : UnitExpr.IsExpression label.toList e) (hsingle : e.single? = none)
    (h : s.resolve e label = .ok u) : s.Backs u := by
  refine backs_of_not_isSymbol fun hsymbol => ?_
  rw [symbol_of_resolve hsingle h] at hsymbol
  have hsome := UnitExpr.single?_of_isSymbol he hsymbol
  rw [hsingle] at hsome
  cases hsome

end UnitSystem

end QuantityCalc
