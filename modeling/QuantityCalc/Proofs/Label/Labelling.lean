import QuantityCalc.Proofs.Label.Unit

/-!
# Labellings

What the labels of units are worth may be asked in several ways: whether a label that is a symbol is
that of a unit of the same dimension (`UnitSystem.Backs`), or whether the unit can be read again
from its label. Such a question is a `Labelling` if the answer is yes for all units that sessions
make, and remains so when a system of units grows. Then it is yes for all units of a session whose
quantities come from its own command lines.
-/

namespace QuantityCalc

/-- Whether a label is one that a conversion makes of the labels of two units. -/
def IsCombined (label : String) : Prop :=
  ∃ target source : String, label = s!"{target}*({source}/{target})"

/-- A condition on units that systems of units make, which growth does not end. -/
structure Labelling where
  /-- Whether a system backs a unit. -/
  Backs : UnitSystem → MeasureUnit → Prop
  grows : ∀ {s s' : UnitSystem} {u : MeasureUnit}, s.Sound → s.Grows s' → s'.Ordered →
    Backs s u → Backs s' u
  plain : ∀ s : UnitSystem, Backs s .plain
  coherent : ∀ {s : UnitSystem} (d : Dimension), s.Sound → Backs s (.coherent d)
  lookup? : ∀ {s : UnitSystem} {t : String} {u : MeasureUnit}, s.Sound → s.lookup? t = some u →
    Backs s u
  resolve : ∀ {s : UnitSystem} {e : UnitExpr} {label : String} {u : MeasureUnit},
    UnitExpr.IsExpression label.toList e → e.single? = none → s.resolve e label = .ok u → Backs s u
  combined : ∀ {s : UnitSystem} {u : MeasureUnit}, IsCombined u.symbol → Backs s u

namespace Labelling

variable (L : Labelling) {s : UnitSystem} {u : MeasureUnit} {id : Nat}

/-- Registered units are backed. -/
theorem unit? (hs : s.Sound) (h : s.unit? id = some u) : L.Backs s u := by
  obtain ⟨d, hd, hsymbol⟩ := UnitSystem.symbol_of_unit? h
  refine L.lookup? (t := d.symbol) hs ?_
  simp only [UnitSystem.lookup?, s.indexed.idOf?_symbol hd, h]

theorem namedFor? (hs : s.Sound) {d : Dimension} (h : s.namedFor? d = some u) : L.Backs s u := by
  unfold Registry.namedFor? at h
  split at h
  · cases h
  · obtain ⟨id, -, hu⟩ := Option.bind_eq_some_iff.1 h
    exact L.unit? hs hu

/-- The unit of an expression is backed, if its label is the text of the expression. -/
theorem of_resolve (hs : s.Sound) {e : UnitExpr} {label : String}
    (he : UnitExpr.IsExpression label.toList e) (h : s.resolve e label = .ok u) : L.Backs s u := by
  cases hsingle : e.single? with
  | some name => exact L.lookup? hs (UnitSystem.lookup?_of_resolve hsingle h)
  | none => exact L.resolve he hsingle h

/-- The unit that a text denotes is backed. -/
theorem parse (hs : s.Sound) {t : Text} (h : s.parse t = .ok u) : L.Backs s u := by
  obtain ⟨e, he, h⟩ := Except.bind_eq_ok.1 h
  refine L.of_resolve hs ?_ h
  rw [String.toList_ofList]
  exact UnitExpr.isExpression_of_parse he

/-- The unit behind a number is backed. -/
theorem scan? (hs : s.Sound) {t rest : Text} (h : s.scan? t = some (.ok (u, rest))) :
    L.Backs s u := by
  obtain ⟨⟨e, rest'⟩, hscan, h⟩ := Option.map_eq_some_iff.1 h
  obtain ⟨v, hv, h⟩ := Except.bind_eq_ok.1 h
  cases h
  obtain ⟨used, rfl, he, -⟩ := UnitExpr.isExpression_of_scan? hscan
  refine L.of_resolve hs ?_ hv
  rwa [String.toList_ofList, List.length_append, Nat.add_sub_cancel, List.take_left]

/-- A label that is a symbol is that of a unit of the same dimension. -/
def symbols : Labelling where
  Backs := UnitSystem.Backs
  grows hs h hs' hu := hs.backs_of_grows h hs' hu
  plain := UnitSystem.backs_plain
  coherent d hs := hs.backs_coherent d
  lookup? _ h := UnitSystem.backs_of_lookup? h
  resolve he hsingle h := UnitSystem.backs_of_resolve he hsingle h
  combined h := by
    -- a combined label has an asterisk
    obtain ⟨target, source, hlabel⟩ := h
    refine UnitSystem.backs_of_not_isSymbol (not_isSymbol_of_mem (c := '*') (by decide) ?_)
    simp [hlabel, ToString.toString]

end Labelling

end QuantityCalc
