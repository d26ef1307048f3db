import QuantityCalc.Proofs.Label.Capture
import QuantityCalc.Proofs.Label.Labelling
import QuantityCalc.Proofs.Label.Rendering

/-!
# What labels denote

The label of a unit denotes the unit (`UnitSystem.Denotes`) if, as a unit expression, it is read as
a unit with this label and this dimension. That is so for the units of symbols and of unit
expressions (`Sound.denotes_of_lookup?`, `denotes_of_isExpression`) and for coherent units with a
dimension that can be written (`Sound.denotes_coherent`), and it remains so when the system grows,
unless a symbol in the label is captured (`Grows.denotes_or_capturedIn`).

So a label says what the unit is (`UnitSystem.Explains`): it is the text of the dimension, or it
denotes the unit, or a symbol in it is captured, or it is one that a conversion makes of the labels
of two units. This is a labelling (`Labelling.explanations`).
-/

namespace QuantityCalc

open Text

namespace UnitSystem

variable {s s' : UnitSystem} {t : Text} {e : UnitExpr} {label : String} {d : Dimension}
  {u v : MeasureUnit}

/-- **A text that denotes something is a symbol.** -/
theorem Sound.isSymbol (hs : s.Sound) {name : String} (h : s.lookup? name = some u) :
    IsSymbol name := by
  have hregistered {w : String} {id : Nat} (hid : s.idOf? w = some id) : IsSymbol w := by
    obtain ⟨d, hd, rfl⟩ := idOf?_eq_some_iff.1 hid
    exact hs.symbol hd
  unfold lookup? at h
  split at h
  next id hid => exact hregistered hid
  next =>
    obtain ⟨p, hp, hprefixed⟩ := List.exists_of_findSome?_eq_some h
    obtain ⟨w, id, d, v, rfl, hid, -⟩ := prefixed?_eq_some_iff.1 hprefixed
    have hletters : ∀ c ∈ p.symbol.toList, UnitExpr.isSymbolChar c = true := by
      have hall : ∀ p ∈ metricPrefixes, p.symbol.toList.all UnitExpr.isSymbolChar = true := by
        decide +kernel
      exact List.all_eq_true.1 (hall p hp)
    have hw := hregistered hid
    rw [IsSymbol, String.toList_append]
    exact ⟨List.append_ne_nil_of_right_ne_nil _ hw.1, List.forall_mem_append.2 ⟨hletters, hw.2⟩⟩

/-! ## Labels that denote their units -/

/-- Whether the label of a unit, as a unit expression, denotes a unit with this label and this
dimension. -/
def Denotes (s : UnitSystem) (u : MeasureUnit) : Prop :=
  ∃ v, s.parse u.symbol.toList = .ok v ∧ v.symbol = u.symbol ∧ v.dimension = u.dimension

/-- Whether a symbol in a unit expression has been captured. -/
def CapturedIn (s : UnitSystem) (label : String) : Prop :=
  ∃ e name, UnitExpr.parse label.toList = .ok e ∧ .symbol name ∈ e.atoms ∧ s.Captured name

theorem denotes_of_isExpression (he : UnitExpr.IsExpression label.toList e)
    (hv : s.resolve e label = .ok v) (hsymbol : v.symbol = label) (hlabel : label = u.symbol)
    (hdimension : v.dimension = u.dimension) : s.Denotes u := by
  subst hlabel
  refine ⟨v, ?_, hsymbol, hdimension⟩
  rw [parse, UnitExpr.parse_eq_of_isExpression he, UnitExpr.trim_of_isExpression he,
    String.ofList_toList]
  exact hv

/-- The unit that a symbol denotes is denoted by its label. -/
theorem Sound.denotes_of_lookup? (hs : s.Sound) {name : String} (h : s.lookup? name = some u) :
    s.Denotes u := by
  have hsymbol := symbol_of_lookup? h
  exact denotes_of_isExpression (UnitExpr.isExpression_symbol (hs.isSymbol h)) (resolve_symbol h)
    hsymbol hsymbol.symm rfl

theorem Denotes.congr (h : s.Denotes u) (hsymbol : v.symbol = u.symbol)
    (hdimension : v.dimension = u.dimension) : s.Denotes v := by
  unfold Denotes
  rw [hsymbol, hdimension]
  exact h

/-- **The expression of a dimension denotes a unit of this dimension**, which has the text of the
dimension as its label and no offset, if all exponents can be written. -/
theorem Sound.resolve_render (hs : s.Sound) (h : d.IsBounded) (hne : d ≠ .one) :
    ∃ u, s.resolve d.expression d.render = .ok u ∧ u.symbol = d.render ∧ u.dimension = d ∧
      u.isAffine = false := by
  have he := Dimension.isExpression_render h hne
  by_cases hsymbol : IsSymbol d.render
  · obtain ⟨b, rfl, hrender⟩ := Dimension.eq_base_of_isSymbol hsymbol
    have hexpression := UnitExpr.eq_symbol_of_isExpression he hsymbol.2
    rw [String.ofList_toList, hrender] at hexpression
    rw [hexpression]
    exact ⟨_, resolve_symbol (hs.lookup?_base b), hrender.symm, rfl,
      MeasureUnit.isAffine_of_offset rfl⟩
  · obtain ⟨p, hp, hdimension⟩ := hs.product_expression h
    have hsingle : d.expression.single? = none := by
      rw [← Option.not_isSome_iff_eq_none]
      exact fun hsome => hsymbol (Dimension.isSymbol_of_single? h hsome)
    have hu : s.resolve d.expression d.render =
        .ok ⟨d.render, p.dimension, p.factor, 0, .expression⟩ := by
      simp only [resolve, hsingle, hp]
      rfl
    exact ⟨_, hu, rfl, hdimension, MeasureUnit.isAffine_of_offset rfl⟩

/-- **The label of a coherent unit denotes it**, if all exponents can be written. -/
theorem Sound.denotes_coherent (hs : s.Sound) (h : d.IsBounded) (hne : d ≠ .one) :
    s.Denotes (.coherent d) := by
  obtain ⟨u, hu, hsymbol, hdimension, -⟩ := hs.resolve_render h hne
  exact denotes_of_isExpression (Dimension.isExpression_render h hne) hu hsymbol rfl hdimension

/-- A label that denotes its unit is an expression, without white space around it. -/
theorem Sound.isExpression_of_denotes (hs : s.Sound) (h : s.Denotes u) :
    ∃ e v, UnitExpr.IsExpression u.symbol.toList e ∧ s.resolve e u.symbol = .ok v ∧
      v.symbol = u.symbol ∧ v.dimension = u.dimension := by
  obtain ⟨v, hv, hsymbol, hdimension⟩ := h
  obtain ⟨e, he, hv⟩ := Except.bind_eq_ok.1 hv
  have he := UnitExpr.isExpression_of_parse he
  cases hsingle : e.single? with
  | some name =>
    have hlookup := lookup?_of_resolve hsingle hv
    have hname : u.symbol = name := hsymbol.symm.trans (symbol_of_lookup? hlookup)
    refine ⟨.symbol name, v, ?_, resolve_symbol hlookup, hsymbol, hdimension⟩
    rw [hname]
    exact UnitExpr.isExpression_symbol (hs.isSymbol hlookup)
  | none =>
    have hlabel : v.symbol = String.ofList (trim u.symbol.toList) := symbol_of_resolve hsingle hv
    have htrim : trim u.symbol.toList = u.symbol.toList := by
      rw [← hsymbol, hlabel, String.toList_ofList, trim_trim]
    rw [htrim] at he hv
    rw [String.ofList_toList] at hv
    exact ⟨e, v, he, hv, hsymbol, hdimension⟩

/-! ## Growth -/

/-- **A label goes on to denote a unit when the system grows**, unless a symbol in it is
captured. -/
theorem Grows.denotes_or_capturedIn (h : s.Grows s')
    (hs : international.definitions.size ≤ s.definitions.size) (hu : s.Denotes u) :
    s'.Denotes u ∨ s'.CapturedIn u.symbol := by
  obtain ⟨v, hv, hsymbol, hdimension⟩ := hu
  obtain ⟨e, he, hv⟩ := Except.bind_eq_ok.1 hv
  by_cases hcaptured : ∃ name, .symbol name ∈ e.atoms ∧ s'.Captured name
  · obtain ⟨name, hname, hcaptured⟩ := hcaptured
    exact .inr ⟨e, name, he, hname, hcaptured⟩
  · have hlookup (name : String) (hname : .symbol name ∈ e.atoms) :
        s'.lookup? name = s.lookup? name := by
      obtain ⟨w, hw⟩ := Option.isSome_iff_exists.1 (contains_of_resolve hv hname)
      rw [hw]
      exact (h.lookup?_or_captured hs hw).resolve_right fun hc => hcaptured ⟨name, hname, hc⟩
    refine .inl ⟨v, ?_, hsymbol, hdimension⟩
    rw [parse, he]
    exact (resolve_congr hlookup).trans hv

theorem Grows.capturedIn (h : s.Grows s') (hlabel : s.CapturedIn label) : s'.CapturedIn label := by
  obtain ⟨e, name, he, hname, hcaptured⟩ := hlabel
  exact ⟨e, name, he, hname, h.captured hcaptured⟩

/-! ## Explanations -/

/-- Whether a label says what the unit is: it is the text of the dimension, or it denotes the unit
or would do so if no symbol in it were captured, or it is one that a conversion makes of the labels
of two units. -/
def Explains (s : UnitSystem) (u : MeasureUnit) : Prop :=
  u.symbol = u.dimension.render ∨ s.Denotes u ∨ s.CapturedIn u.symbol ∨ IsCombined u.symbol

end UnitSystem

/-- Labels say what units are. -/
def Labelling.explanations : Labelling where
  Backs := UnitSystem.Explains
  grows hs h _ hu := by
    rcases hu with hrender | hdenotes | hcaptured | hcombined
    · exact .inl hrender
    · rcases h.denotes_or_capturedIn hs.grows.size_le hdenotes with hdenotes | hcaptured
      · exact .inr (.inl hdenotes)
      · exact .inr (.inr (.inl hcaptured))
    · exact .inr (.inr (.inl (h.capturedIn hcaptured)))
    · exact .inr (.inr (.inr hcombined))
  plain _ := .inl rfl
  coherent _ _ := .inl rfl
  lookup? hs h := .inr (.inl (hs.denotes_of_lookup? h))
  resolve he hsingle h := by
    have hsymbol := UnitSystem.symbol_of_resolve hsingle h
    exact .inr (.inl (UnitSystem.denotes_of_isExpression he h hsymbol hsymbol.symm rfl))
  combined h := .inr (.inr (.inr h))

end QuantityCalc
