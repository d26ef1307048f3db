import QuantityCalc.Proofs.Decimal.Display
import QuantityCalc.Proofs.Expression.Typed
import QuantityCalc.Proofs.Label.Denoted
import QuantityCalc.Proofs.Label.Sessions
import QuantityCalc.Quantity.Basic

/-!
# Values that are typed back

What is shown of a value can be typed back: it is read to its end as a value with the same label and
the same dimension (`readConverted_of_display`). That holds in all sessions in which labels say what
units are, for all values whose unit is typable (`UnitSystem.Typable`). A unit is not typable if its
label has an integer or starts with a parenthesis, for the unit behind a number is not read so; if
it is computed and has an exponent that cannot be written; or if its label does not denote it any
more, or has not done so, since a symbol in it is captured or a conversion has made it of other
labels. There are values of each of these kinds that cannot be typed back (`not_typed_back`).
-/

namespace QuantityCalc

open Text

namespace UnitSystem

variable {s : UnitSystem} {u : MeasureUnit}

/-- Whether the label of a unit is read as a unit of the same dimension behind a number. -/
structure Typable (s : UnitSystem) (u : MeasureUnit) : Prop where
  /-- There is no integer in the label. -/
  integer : ∀ {e : UnitExpr} {n : Nat}, UnitExpr.parse u.symbol.toList = .ok e →
    .integer n ∉ e.atoms
  /-- The label does not start with a parenthesis. -/
  parenthesis : u.symbol.toList.head? ≠ some '('
  /-- If the label is the text of the dimension, the exponents can be written. -/
  bounded : u.symbol = u.dimension.render → u.dimension.IsBounded
  /-- If a symbol in the label has been captured, or if the label is one that a conversion makes of
  the labels of two units, the label denotes the unit nevertheless. -/
  denotes : s.CapturedIn u.symbol ∨ IsCombined u.symbol → s.Denotes u

/-- A typable unit whose label says what it is has no label and no dimension, or its label denotes
it. -/
theorem Typable.plain_or_denotes (hu : s.Typable u) (hs : s.Sound) (h : s.Explains u) :
    u.symbol = "" ∧ u.dimension = .one ∨ s.Denotes u := by
  rcases h with hrender | hdenotes | hcaptured | hcombined
  · by_cases hone : u.dimension = .one
    · refine .inl ⟨?_, hone⟩
      rw [hrender, hone]
      rfl
    · exact .inr ((hs.denotes_coherent (hu.bounded hrender) hone).congr hrender rfl)
  · exact .inr hdenotes
  · exact .inr (hu.denotes (.inl hcaptured))
  · exact .inr (hu.denotes (.inr hcombined))

/-- **The label of a typable unit is read behind a number** as a unit with this label and this
dimension. -/
theorem Typable.scan? (hu : s.Typable u) (hs : s.Sound) (h : s.Denotes u) :
    ∃ v, s.scan? u.symbol.toList = some (.ok (v, [])) ∧ v.symbol = u.symbol ∧
      v.dimension = u.dimension ∧ v.origin ≠ .computed := by
  obtain ⟨e, v, he, hv, hsymbol, hdimension⟩ := hs.isExpression_of_denotes h
  have hinteger (n : Nat) : .integer n ∉ e.atoms :=
    hu.integer (UnitExpr.parse_eq_of_isExpression he)
  have hfits : UnitExpr.Extent.Fits (.longest s.contains) u.symbol.toList e := by
    refine ⟨he, fun a ha => ?_⟩
    cases a with
    | symbol name => exact UnitExpr.Extent.accepts_symbol_iff.2 (contains_of_resolve hv ha)
    | integer n => exact absurd ha (hinteger n)
  have hhead := UnitExpr.isSymbolChar_of_isExpression he hinteger hu.parenthesis
  refine ⟨v, ?_, hsymbol, hdimension, origin_of_resolve hv⟩
  rw [UnitSystem.scan?, UnitExpr.scan?_of_isExpression hfits hhead, Option.map_some]
  simp only [List.length_nil, Nat.sub_zero, List.take_length, String.ofList_toList, hv]
  rfl

end UnitSystem

/-! ## The text of a value as an operand -/

/-- The text of a value is that of its float, and the label behind it if there is one. -/
theorem Quantity.toList_display (q : Quantity) : q.display.toList =
    (Decimal.display q.value).toList ++
      if q.unit.symbol = "" then [] else ' ' :: q.unit.symbol.toList := by
  simp only [display, format, Decimal.displayTo]
  split
  · simp
  · simp

namespace Expression

variable {s : Session} {t : Text} {u : MeasureUnit}

/-- A number in positional notation and the label of a typable unit are an operand. -/
theorem exists_operand (hs : s.system.Sound) (ht : Decimal.IsPositional t)
    (hu : s.system.Typable u) (hexplains : s.system.Explains u) :
    ∃ o : Operand s,
      (Word.operand o).text = t ++ (if u.symbol = "" then [] else ' ' :: u.symbol.toList) ∧
      o.quantity.unit.symbol = u.symbol ∧ o.quantity.dimension = u.dimension ∧
      o.quantity.unit.origin ≠ .computed := by
  obtain ⟨l, value, hl, hvalue⟩ := ht.lexeme s.options.decimalComma
  rcases hu.plain_or_denotes hs hexplains with ⟨hsymbol, hdimension⟩ | hdenotes
  · have horigin : MeasureUnit.plain.origin ≠ .computed := by decide
    refine ⟨⟨t, l, value, none, hl, hvalue⟩, ?_, hsymbol.symm, hdimension.symm, horigin⟩
    rw [if_pos hsymbol]
    rfl
  · obtain ⟨v, hscan, hsymbol, hdimension, horigin⟩ := hu.scan? hs hdenotes
    have hne : u.symbol ≠ "" := by
      intro heq
      obtain ⟨e, -, he, -⟩ := hs.isExpression_of_denotes hdenotes
      exact UnitExpr.ne_nil_of_isExpression he (by rw [heq]; rfl)
    refine ⟨⟨t, l, value, some ⟨_, v, hscan⟩, hl, hvalue⟩, ?_, hsymbol, hdimension, horigin⟩
    rw [if_neg hne]
    rfl

end Expression

/-! ## Sessions -/

namespace Session

open Expression

variable {s s₁ : Session} {fs : List Frame}

/-- **What is shown of a value can be typed back.** In a session in which labels say what units are,
the text of a finite value with a typable unit is read to its end, as a value with the same label
and the same dimension. -/
theorem readConverted_of_display {budget budget' : Nat} {t rest : Text} {q : Quantity}
    (h : HonestReachable .explanations fs s)
    (hread : (readConverted budget t).outcome s = .ok (⟨.ok q, rest⟩, s₁))
    (hfinite : q.value.isFinite = true) (hu : s₁.system.Typable q.unit) :
    ∃ q', (readConverted budget' q.display.toList).outcome s₁ = .ok (⟨.ok q', []⟩, s₁) ∧
      q'.unit.symbol = q.unit.symbol ∧ q'.dimension = q.dimension := by
  have hs := backed_of_honestReachable h
  obtain ⟨hs₁, hvalues⟩ := (Entry.converted t).yields_run budget hs Labelling.backsAll_nil hread
  obtain ⟨number, hnumber, hdisplay⟩ := Decimal.display_of_isFinite hfinite
  obtain ⟨o, ho, hsymbol, hdimension, horigin⟩ :=
    exists_operand hs₁.backed.sound hnumber hu (hvalues q List.mem_cons_self)
  rw [q.toList_display]
  rcases hdisplay with hdisplay | hdisplay
  · refine ⟨o.quantity, ?_, hsymbol, hdimension⟩
    rw [hdisplay, ← ho]
    exact outcome_readConverted budget' horigin fun context => value_of_operand context o
  · refine ⟨o.quantity.neg, ?_, hsymbol, hdimension⟩
    rw [hdisplay, List.cons_append, ← ho]
    exact outcome_readConverted budget' horigin fun context => value_of_minus context o

/-- Runs lines in a new session and reads a value, and then what is shown of the value: the value,
the session behind it, and what is read. -/
def retyped (options : Options) (ls : List String) (t : Text) :
    Option (Quantity × Session × Parsed Quantity) :=
  match (executeLines 0 ls).outcome (start options .unknown) with
  | .error _ => none
  | .ok (_, s) =>
    match (readConverted 0 t).outcome s with
    | .ok (⟨.ok q, _⟩, s₁) =>
      match (readConverted 0 q.display.toList).outcome s₁ with
      | .ok (parsed, _) => some (q, s₁, parsed)
      | .error _ => none
    | _ => none

theorem exists_of_retyped {options : Options} {ls : List String} {t : Text} {q : Quantity}
    {s₁ : Session} {parsed : Parsed Quantity} (h : retyped options ls t = some (q, s₁, parsed)) :
    ∃ r s s₂ rest, (executeLines 0 ls).outcome (start options .unknown) = .ok (r, s) ∧
      HonestReachable .explanations [] s ∧
      (readConverted 0 t).outcome s = .ok (⟨.ok q, rest⟩, s₁) ∧
      (readConverted 0 q.display.toList).outcome s₁ = .ok (parsed, s₂) := by
  unfold retyped at h
  split at h
  next => cases h
  next r s hlines =>
    split at h
    next q' rest s₁' hread =>
      split at h
      next parsed' s₂ hback =>
        cases h
        have hgiven : Labelling.explanations.BacksAll (start options .unknown).system
            (Entry.lines ls).given := Labelling.backsAll_nil
        have hs : HonestReachable .explanations [] s :=
          (HonestReachable.start options .unknown).step (.entry (.lines ls) 0 hgiven hlines)
        exact ⟨r, s, s₂, rest, hlines, hs, hread, hback⟩
      next => cases h
    next => cases h

theorem typable_sample {s : UnitSystem} {u : MeasureUnit}
    (hs : s.definitions.size ≤ UnitSystem.international.definitions.size)
    (hsymbol : u.symbol = "Kg*m") (hdimension : u.dimension = ⟨1, 1, 0, 0, 0, 0, 0⟩) :
    s.Typable u := by
  refine ⟨fun {e n} he => ?_, ?_, fun _ b => ?_, ?_⟩
  · have hparse : UnitExpr.parse "Kg*m".toList = .ok ⟨[(.symbol "Kg", 1), (.symbol "m", 1)], []⟩ :=
      rfl
    rw [hsymbol, hparse] at he
    cases he
    simp [UnitExpr.atoms, UnitTerm.factorsAtoms, UnitTerm.factorAtoms, UnitTerm.atoms]
  · rw [hsymbol]
    decide
  · rw [hdimension]
    cases b <;> decide
  · rintro (⟨e, name, -, -, id, d, hd, hdeclared, -⟩ | ⟨target, source, hlabel⟩)
    · have hlt := (Array.getElem?_eq_some_iff.1 hd).1
      omega
    · have hopen : '(' ∈ u.symbol.toList := by simp [hlabel, ToString.toString]
      rw [hsymbol] at hopen
      exact absurd hopen (by decide)

theorem readConverted_of_display_sample : ∃ s s₁ q q' rest,
    HonestReachable .explanations [] s ∧
    (readConverted 0 "2 Kg * -3 m".toList).outcome s = .ok (⟨.ok q, rest⟩, s₁) ∧
    q.value.isFinite = true ∧ s₁.system.Typable q.unit ∧ q.display = "-6 Kg*m" ∧
    (readConverted 0 q.display.toList).outcome s₁ = .ok (⟨.ok q', []⟩, s₁) ∧
    q'.unit.symbol = q.unit.symbol ∧ q'.dimension = q.dimension := by
  have hany : (retyped {} [] "2 Kg * -3 m".toList).any (fun x => x.1.value.isFinite &&
      x.2.1.system.definitions.size ≤ UnitSystem.international.definitions.size &&
      x.1.unit.symbol = "Kg*m" && x.1.unit.dimension = ⟨1, 1, 0, 0, 0, 0, 0⟩ &&
      x.1.display = "-6 Kg*m") = true := by
    decide +kernel
  obtain ⟨⟨q, s₁, parsed⟩, hx, hall⟩ := (Option.any_eq_true _ _).1 hany
  simp only [Bool.and_eq_true, decide_eq_true_eq] at hall
  obtain ⟨⟨⟨⟨hfinite, hsize⟩, hsymbol⟩, hdimension⟩, hdisplay⟩ := hall
  obtain ⟨-, s, -, rest, -, hs, hread, -⟩ := exists_of_retyped hx
  have hu := typable_sample hsize hsymbol hdimension
  obtain ⟨q', hback, hsymbol', hdimension'⟩ := readConverted_of_display hs hread hfinite hu
  exact ⟨s, s₁, q, q', rest, hs, hread, hfinite, hu, hdisplay, hback, hsymbol', hdimension'⟩

/-- Whether what is read is a value with the label and the dimension of another one, and nothing
follows. -/
def isTypedBack (q : Quantity) : Parsed Quantity → Bool
  | ⟨.ok q', []⟩ => q'.unit.symbol = q.unit.symbol && q'.dimension = q.dimension
  | _ => false

/-- Whether the value of a text after some lines is finite, and what is shown of it is not read to
its end as a value with the same label and the same dimension. -/
def NotTypedBack (options : Options) (ls : List String) (t : Text) : Prop :=
  ∃ r s s₁ q rest, (executeLines 0 ls).outcome (start options .unknown) = .ok (r, s) ∧
    HonestReachable .explanations [] s ∧
    (readConverted 0 t).outcome s = .ok (⟨.ok q, rest⟩, s₁) ∧ q.value.isFinite = true ∧
    ¬∃ q', (readConverted 0 q.display.toList).outcome s₁ = .ok (⟨.ok q', []⟩, s₁) ∧
      q'.unit.symbol = q.unit.symbol ∧ q'.dimension = q.dimension

theorem notTypedBack_of_retyped {options : Options} {ls : List String} {t : Text}
    (h : (retyped options ls t).any (fun x =>
      x.1.value.isFinite && !isTypedBack x.1 x.2.2) = true) : NotTypedBack options ls t := by
  obtain ⟨⟨q, s₁, parsed⟩, hx, hall⟩ := (Option.any_eq_true _ _).1 h
  simp only [Bool.and_eq_true, Bool.not_eq_true'] at hall
  obtain ⟨hfinite, hback⟩ := hall
  obtain ⟨r, s, s₂, rest, hlines, hs, hread, hparsed⟩ := exists_of_retyped hx
  refine ⟨r, s, s₁, q, rest, hlines, hs, hread, hfinite, ?_⟩
  rintro ⟨q', hread', hsymbol, hdimension⟩
  rw [hparsed] at hread'
  cases hread'
  simp [isTypedBack, hsymbol, hdimension] at hback

/-- Values that cannot be typed back: one whose label has an integer, one whose label starts with a
parenthesis, one whose label a conversion has made of two others, one whose label was read with a
prefix and is registered now, and one with an exponent that cannot be written. -/
theorem not_typed_back :
    NotTypedBack {} [] "3 Hz [1/s]".toList ∧ NotTypedBack {} [] "1 m [(m)]".toList ∧
      NotTypedBack { lenientConversion := true } [] "6 s [m/s]".toList ∧
      NotTypedBack {} ["x = 3 km", "Unit km = 5 s"] "x".toList ∧
      NotTypedBack {} [] "1 m^-64 * 1 m^-64".toList := by
  refine ⟨?_, ?_, ?_, ?_, ?_⟩ <;> exact notTypedBack_of_retyped (by decide +kernel)

end Session

end QuantityCalc
