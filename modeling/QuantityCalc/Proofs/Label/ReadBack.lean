import QuantityCalc.Proofs.Label.Denoted

/-!
# Reading back the text of a dimension

In a sound system the text of a dimension is read as a unit of this dimension without an offset
(`Sound.resolve_render`). The reader of units behind numbers takes all of it as well: it starts with
a symbol, and there are no integers in it (`Sound.fits_render`).
-/

namespace QuantityCalc

open UnitExpr UnitTerm

namespace Dimension

variable {bs : List BaseDimension} {d : Dimension} {f : BaseDimension → Int}

/-! ## Where the text starts -/

theorem head?_power (b : BaseDimension) (n : Int) :
    (power b n).toList.head? = b.symbol.toList.head? := by
  unfold power
  split
  · rfl
  · rw [String.append_assoc, String.toList_append,
      List.head?_append_of_ne_nil _ (isSymbol_symbol b).1]

theorem any_isSymbolChar_power (b : BaseDimension) (n : Int) :
    (power b n).toList.head?.any isSymbolChar = true := by
  rw [head?_power]
  obtain ⟨hne, hchars⟩ := isSymbol_symbol b
  obtain ⟨c, t, ht⟩ := List.exists_cons_of_ne_nil hne
  rw [ht] at hchars ⊢
  exact hchars c List.mem_cons_self

theorem any_isSymbolChar_intercalate (hne : bs ≠ []) :
    ("*".intercalate (bs.map fun b => power b (f b))).toList.head?.any isSymbolChar = true := by
  obtain ⟨b, bs, rfl⟩ := List.exists_cons_of_ne_nil hne
  have hpower := any_isSymbolChar_power b (f b)
  have hb : (power b (f b)).toList ≠ [] := by
    intro hnil
    rw [hnil] at hpower
    cases hpower
  rw [toList_intercalate, List.head?_append_of_ne_nil _ hb]
  exact hpower

/-- The text of a dimension starts with a symbol. -/
theorem any_isSymbolChar_render (hne : d ≠ .one) :
    d.render.toList.head?.any isSymbolChar = true := by
  rw [render_eq]
  split
  next hempty =>
    exact any_isSymbolChar_intercalate fun hnil =>
      hne (eq_one_of_empty (List.isEmpty_iff.1 hempty) hnil)
  next hempty =>
    have habove := any_isSymbolChar_intercalate (f := fun b => d.exponents b)
      fun hnil => hempty (List.isEmpty_iff.2 hnil)
    have hfront : ("*".intercalate (d.above.map fun b => power b (d.exponents b))).toList ≠ [] := by
      intro hnil
      rw [hnil] at habove
      cases habove
    rw [String.toList_append, List.head?_append_of_ne_nil _ hfront]
    exact habove

/-! ## What it is made of -/

theorem integer_notMem_powers (k : Nat) (bs : List BaseDimension) (f : BaseDimension → Int) :
    .integer k ∉ factorsAtoms (bs.map fun b => powerFactor b (f b)) := by
  induction bs with
  | nil => nofun
  | cons b bs ih =>
    have hb : .integer k ∉ factorAtoms (powerFactor b (f b)) := by
      simp [powerFactor, factorAtoms, UnitTerm.atoms]
    simpa [factorsAtoms, hb] using ih

theorem integer_notMem_expression (k : Nat) (d : Dimension) : .integer k ∉ d.expression.atoms := by
  unfold expression UnitExpr.atoms
  split
  · simpa [factorsAtoms] using integer_notMem_powers k _ _
  · rw [List.mem_append, not_or]
    exact ⟨integer_notMem_powers k _ _, integer_notMem_powers k _ _⟩

end Dimension

namespace UnitSystem

variable {s : UnitSystem} {d : Dimension}

/-- **The expression of a dimension is read behind a number**, too. -/
theorem Sound.fits_render (hs : s.Sound) (h : d.IsBounded) (hne : d ≠ .one) :
    Extent.Fits (.longest s.contains) d.render.toList d.expression := by
  refine ⟨Dimension.isExpression_render h hne, fun a ha => ?_⟩
  cases a with
  | symbol name =>
    obtain ⟨u, hu, -⟩ := hs.resolve_render h hne
    exact contains_of_resolve hu ha
  | integer k => exact absurd ha (Dimension.integer_notMem_expression k d)

/-- **The text of a dimension is read back** as a unit of this dimension that has no offset and the
text as its label, by the parser of texts and, to the end of the text, by the reader of units behind
numbers. -/
theorem international_reads_render (h : d.IsBounded) (hne : d ≠ .one) :
    ∃ u, international.parse d.render.toList = .ok u ∧
      international.scan? d.render.toList = some (.ok (u, [])) ∧
      u.symbol = d.render ∧ u.dimension = d ∧ u.isAffine = false := by
  have hs := sound_international
  have he := Dimension.isExpression_render h hne
  obtain ⟨u, hu, hsymbol, hdimension, haffine⟩ := hs.resolve_render h hne
  have hscan := scan?_of_isExpression (hs.fits_render h hne) (Dimension.any_isSymbolChar_render hne)
  refine ⟨u, ?_, ?_, hsymbol, hdimension, haffine⟩
  · rw [parse, parse_eq_of_isExpression he, trim_of_isExpression he, String.ofList_toList]
    exact hu
  · simp only [scan?, hscan, Option.map_some, List.length_nil, Nat.sub_zero, List.take_length,
      String.ofList_toList, hu]
    rfl

theorem international_reads_render_force :
    let d : Dimension := { length := 1, mass := 1, time := -127 }
    d.IsBounded ∧ d ≠ .one ∧ d.render = "Kg*m/s^127" ∧
      ∃ u, international.parse d.render.toList = .ok u ∧
        international.scan? d.render.toList = some (.ok (u, [])) ∧
        u.symbol = d.render ∧ u.dimension = d ∧ u.isAffine = false := by
  have hbounded : Dimension.IsBounded { length := 1, mass := 1, time := -127 } := by
    unfold Dimension.IsBounded
    decide
  exact ⟨hbounded, by decide, by decide, international_reads_render hbounded (by decide)⟩

end UnitSystem

end QuantityCalc
