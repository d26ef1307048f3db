import QuantityCalc.Proofs.Decimal.Display
import QuantityCalc.Proofs.Dimension.Exact
import QuantityCalc.Proofs.Label.Unit
import QuantityCalc.Proofs.Unit.Grammar

/-!
# The text of a dimension as a unit expression

The text of a dimension is a unit expression of the symbols of base units (`isExpression_render`).
The exponent -128 is an exception, because the exponents of unit expressions have a magnitude of 127
at most. In a sound system, the product of this expression has the dimension
(`Sound.product_expression`).
-/

namespace QuantityCalc

open Text UnitExpr

/-! ## Powers of base units -/

/-- The decimal digits of a number have its value. -/
theorem Decimal.ofDigits_toDigits (n : Nat) : ofDigits 10 (Nat.toDigits 10 n) = n := by
  rw [ofDigits, List.foldl_ext _ (fun m c => 10 * m + (c.toNat - '0'.toNat)) 0,
    ← Nat.ofDigitChars_eq_foldl, Nat.ofDigitChars_ten_toDigits]
  intro m c hc
  rw [digitValue, if_pos (isDigit_of_mem_toDigits hc)]

theorem UnitExpr.isNumber_toDigits {n : Nat} (h : 0 < n) : IsNumber (Nat.toDigits 10 n) n where
  ne_nil := Nat.toDigits_ne_nil
  isDigit _ hc := Decimal.isDigit_of_mem_toDigits hc
  eq := (Decimal.ofDigits_toDigits n).symm
  pos := h

namespace Dimension

variable {b : BaseDimension} {bs : List BaseDimension} {d : Dimension} {n : Int}

/-- Whether an integer can be the exponent of a term. -/
def IsWritable (n : Int) : Prop := n ≠ 0 ∧ -127 ≤ n ∧ n ≤ 127

/-- The text of an exponent that can be written is an exponent. -/
theorem isExponent_toString (h : IsWritable n) :
    IsExponent ('^' :: (toString n).toList) (Int8.ofInt n) := by
  obtain ⟨hne, hlow, hhigh⟩ := h
  cases n with
  | ofNat m =>
    have htext : (toString (Int.ofNat m)).toList = Nat.toDigits 10 m := Nat.toList_repr
    rw [Int.ofNat_eq_natCast] at hne hhigh
    rw [htext]
    exact .positive (isNumber_toDigits (by omega)) (by omega)
  | negSucc m =>
    have htext : (toString (Int.negSucc m)).toList = '-' :: Nat.toDigits 10 (m + 1) := by
      rw [← Nat.toList_repr]
      exact String.toList_append
    have hle : m + 1 ≤ 127 := by omega
    have hneg : Int.negSucc m = -((m + 1 : Nat) : Int) := rfl
    rw [htext, hneg]
    exact .negative (isNumber_toDigits (Nat.succ_pos m)) hle

/-- A base unit with an exponent. -/
def powerFactor (b : BaseDimension) (n : Int) : UnitFactor := (.symbol b.symbol, Int8.ofInt n)

/-- The symbol of a base unit is one of letters only. -/
theorem isSymbol_symbol (b : BaseDimension) : IsSymbol b.symbol := by
  have hall : ∀ b ∈ BaseDimension.all, b.symbol.toList ≠ [] ∧
      b.symbol.toList.all isSymbolChar = true := by
    decide
  obtain ⟨hne, hchars⟩ := hall b b.mem_all
  exact ⟨hne, List.all_eq_true.1 hchars⟩

/-- The text of a power of a base unit is a factor. -/
theorem isFactor_power (b : BaseDimension) (h : IsWritable n) :
    IsFactor (power b n).toList (powerFactor b n) := by
  unfold power powerFactor
  split
  next hone =>
    subst hone
    simpa using IsFactor.mk (isTerm_of_isSymbol (isSymbol_symbol b)) .one
  next =>
    simpa using IsFactor.mk (isTerm_of_isSymbol (isSymbol_symbol b)) (isExponent_toString h)

/-! ## Products of powers -/

/-- The text of powers, with a sign before each of them. -/
def signed (sign : Char) (f : BaseDimension → Int) (bs : List BaseDimension) : Text :=
  bs.flatMap fun b => sign :: (power b (f b)).toList

/-- An expression goes on with powers of base units. -/
theorem isExpression_signed {sign : Char} {below : Bool} {f : BaseDimension → Int}
    (hsign : IsSign sign below) (hf : ∀ b ∈ bs, IsWritable (f b)) {t : Text} {e : UnitExpr}
    (he : IsExpression t e) :
    IsExpression (t ++ signed sign f bs)
      ((bs.map fun b => powerFactor b (f b)).foldl (fun e f => e.push below f) e) := by
  induction bs generalizing t e with
  | nil => simpa [signed] using he
  | cons b bs ih =>
    have hb := isFactor_power b (hf b List.mem_cons_self)
    have hrest := ih (fun c hc => hf c (List.mem_cons_of_mem b hc)) (he.push hsign hb)
    simpa [signed] using hrest

/-- Factors that are pushed on one side of the slash stand there in order. -/
theorem foldl_push (below : Bool) (fs : List UnitFactor) (e : UnitExpr) :
    fs.foldl (fun e f => e.push below f) e =
      if below then ⟨e.numerator, e.denominator ++ fs⟩ else ⟨e.numerator ++ fs, e.denominator⟩ := by
  induction fs generalizing e with
  | nil => cases below <;> simp
  | cons f fs ih =>
    rw [List.foldl_cons, ih]
    cases below <;> simp [push]

/-- The text of a product has a sign before each power but the first. -/
theorem toList_intercalate (f : BaseDimension → Int) (b : BaseDimension)
    (bs : List BaseDimension) :
    ("*".intercalate ((b :: bs).map fun b => power b (f b))).toList =
      (power b (f b)).toList ++ signed '*' f bs := by
  induction bs generalizing b with
  | nil => simp [signed]
  | cons c bs ih =>
    have hc := ih c
    simp only [List.map_cons] at hc ⊢
    rw [String.intercalate_cons_cons, String.toList_append, String.toList_append, hc]
    simp [signed]

/-- Powers of base units with asterisks between them are an expression. -/
theorem isExpression_intercalate {f : BaseDimension → Int} (hne : bs ≠ [])
    (hf : ∀ b ∈ bs, IsWritable (f b)) :
    IsExpression ("*".intercalate (bs.map fun b => power b (f b))).toList
      ⟨bs.map fun b => powerFactor b (f b), []⟩ := by
  obtain ⟨b, bs, rfl⟩ := List.exists_cons_of_ne_nil hne
  have hb := isFactor_power b (hf b List.mem_cons_self)
  have he := isExpression_signed .star (fun c hc => hf c (List.mem_cons_of_mem b hc)) (.factor hb)
  rw [toList_intercalate]
  simpa [foldl_push] using he

/-! ## The expression of a dimension -/

/-- The base dimensions with positive exponents. -/
def above (d : Dimension) : List BaseDimension := writingOrder.filter fun b => 0 < d.exponents b

/-- The base dimensions with negative exponents. -/
def below (d : Dimension) : List BaseDimension := writingOrder.filter fun b => d.exponents b < 0

theorem mem_above : b ∈ d.above ↔ 0 < d.exponents b := by
  simp [above, mem_writingOrder]

theorem mem_below : b ∈ d.below ↔ d.exponents b < 0 := by
  simp [below, mem_writingOrder]

/-- The expression that the text of a dimension is. -/
def expression (d : Dimension) : UnitExpr :=
  if d.above.isEmpty then ⟨d.below.map fun b => powerFactor b (d.exponents b), []⟩
  else ⟨d.above.map fun b => powerFactor b (d.exponents b),
    d.below.map fun b => powerFactor b (-d.exponents b)⟩

theorem render_eq (d : Dimension) : d.render =
    if d.above.isEmpty then "*".intercalate (d.below.map fun b => power b (d.exponents b))
    else "*".intercalate (d.above.map fun b => power b (d.exponents b)) ++
      String.join (d.below.map fun b => "/" ++ power b (-d.exponents b)) := rfl

/-- A dimension without exponents is one. -/
theorem eq_one_of_empty (habove : d.above = []) (hbelow : d.below = []) : d = .one := by
  refine exponents_injective (funext fun b => ?_)
  have hpos : ¬0 < d.exponents b := by
    rw [← mem_above, habove]
    exact List.not_mem_nil
  have hneg : ¬d.exponents b < 0 := by
    rw [← mem_below, hbelow]
    exact List.not_mem_nil
  simp only [exponents_one, Pi.zero_apply]
  omega

/-- Whether all exponents can be written. -/
def IsBounded (d : Dimension) : Prop := ∀ b, d.exponent b ≠ -128

/-- The exponents of a bounded dimension are at least -127. -/
theorem IsBounded.le (h : d.IsBounded) (b : BaseDimension) :
    -127 ≤ d.exponents b ∧ d.exponents b ≤ 127 := by
  have hfits := d.fits_exponents b
  have hne : d.exponents b ≠ -128 := fun heq => h b (Int8.toInt_inj.1 heq)
  omega

theorem IsBounded.isWritable_of_mem_above (h : d.IsBounded) (hb : b ∈ d.above) :
    IsWritable (d.exponents b) := by
  have hpos := mem_above.1 hb
  have hle := h.le b
  simp only [IsWritable]
  omega

/-- A power below the slash is written with the opposite exponent. -/
theorem IsBounded.isWritable_of_mem_below (h : d.IsBounded) (hb : b ∈ d.below) :
    IsWritable (d.exponents b) ∧ IsWritable (-d.exponents b) := by
  have hneg := mem_below.1 hb
  have hle := h.le b
  simp only [IsWritable]
  omega

/-- **The text of a dimension is a unit expression**, if all exponents can be written. -/
theorem isExpression_render (h : d.IsBounded) (hne : d ≠ .one) :
    IsExpression d.render.toList d.expression := by
  rw [render_eq, expression]
  split
  next hempty =>
    have hne : d.below ≠ [] := fun hnil => hne (eq_one_of_empty (List.isEmpty_iff.1 hempty) hnil)
    exact isExpression_intercalate hne fun b hb => (h.isWritable_of_mem_below hb).1
  next hempty =>
    have he := isExpression_intercalate (by simpa using hempty) fun b hb =>
      h.isWritable_of_mem_above hb
    have hslash := isExpression_signed .slash (f := fun b => -d.exponents b)
      (fun b hb => (h.isWritable_of_mem_below hb).2) he
    simpa [foldl_push, signed, String.toList_join, List.flatMap_map] using hslash

/-- The factors of a product of powers are a symbol alone only if there is one power, of exponent
one. -/
theorem eq_singleton_of_map {f : BaseDimension → Int} {name : String}
    (hf : ∀ b ∈ bs, IsWritable (f b))
    (h : (bs.map fun b => powerFactor b (f b)) = [(.symbol name, 1)]) :
    ∃ b, bs = [b] ∧ f b = 1 := by
  obtain ⟨b, rfl, hb⟩ := List.map_eq_singleton_iff.1 h
  obtain ⟨-, hlow, hhigh⟩ := hf b List.mem_cons_self
  have hone : Int8.ofInt (f b) = 1 := congrArg Prod.snd hb
  refine ⟨b, rfl, ?_⟩
  rw [← Int8.toInt_ofInt_of_le (n := f b) (by omega) (by omega), hone]
  rfl

/-- The text of a dimension is a symbol if the expression is one. -/
theorem isSymbol_of_single? (h : d.IsBounded) (hsingle : d.expression.single?.isSome = true) :
    IsSymbol d.render := by
  obtain ⟨name, hname⟩ := Option.isSome_iff_exists.1 hsingle
  have heq := eq_symbol_of_single? hname
  unfold Dimension.expression at heq
  split at heq
  next =>
    obtain ⟨b, hb, hone⟩ := eq_singleton_of_map
      (fun b hb => (h.isWritable_of_mem_below hb).1) (congrArg UnitExpr.numerator heq)
    have hneg := mem_below.1 (hb ▸ List.mem_singleton_self b)
    omega
  next hempty =>
    obtain ⟨b, hb, hone⟩ := eq_singleton_of_map
      (fun b hb => h.isWritable_of_mem_above hb) (congrArg UnitExpr.numerator heq)
    have hbelow : d.below = [] := List.map_eq_nil_iff.1 (congrArg UnitExpr.denominator heq)
    have hrender : d.render = b.symbol := by
      rw [render_eq, if_neg hempty, hb, hbelow]
      simp [power, hone, String.join]
    rw [hrender]
    exact isSymbol_symbol b

theorem exponents_base (b c : BaseDimension) : (base b).exponents c = if c = b then 1 else 0 := by
  rw [exponents, base, exponent_ofExponents]
  split <;> rfl

/-- Exponents that are in range are those of a dimension. -/
theorem exists_of_fits {v : Exponents} (h : v.Fits) :
    ∃ d, ofInts? v = some d ∧ d.exponents = v := by
  cases hd : ofInts? v with
  | none => exact absurd h (ofInts?_eq_none_iff.1 hd)
  | some d => exact ⟨d, rfl, ofInts?_eq_some_iff.1 hd⟩

theorem nodup_writingOrder : writingOrder.Nodup := by decide

theorem nodup_above (d : Dimension) : d.above.Nodup := nodup_writingOrder.filter _

theorem nodup_below (d : Dimension) : d.below.Nodup := nodup_writingOrder.filter _

end Dimension

/-! ## The product of the expression -/

namespace UnitSystem

open Dimension

variable {s : UnitSystem} {b : BaseDimension} {bs : List BaseDimension} {d : Dimension} {n : Int}

/-- A power of a base unit has the exponent for the base dimension. -/
theorem Sound.factorProduct_power (hs : s.Sound) (b : BaseDimension) (h : IsWritable n) :
    ∃ p, s.factorProduct (powerFactor b n) = .ok p ∧
      ∀ c, p.dimension.exponents c = if c = b then n else 0 := by
  obtain ⟨-, hlow, hhigh⟩ := h
  have hn : (Int8.ofInt n).toInt = n := Int8.toInt_ofInt_of_le (by omega) (by omega)
  have hpower (c : BaseDimension) :
      (base b).exponents c * (Int8.ofInt n).toInt = if c = b then n else 0 := by
    rw [exponents_base, hn]
    split <;> omega
  have hfits : Exponents.Fits fun c => (base b).exponents c * (Int8.ofInt n).toInt := by
    intro c
    dsimp only
    rw [hpower]
    split <;> omega
  obtain ⟨d, hd, hexponents⟩ := exists_of_fits hfits
  have hpow : (base b).pow? (Int8.ofInt n) = some d := hd
  have haffine : ¬(⟨b.symbol, .base b, 1, 0, .named⟩ : MeasureUnit).isAffine = true :=
    Bool.eq_false_iff.1 (MeasureUnit.isAffine_of_offset rfl)
  refine ⟨⟨d, integerPower 1 (Int8.ofInt n).toInt⟩, ?_, fun c => ?_⟩
  · simp only [powerFactor, factorProduct, termProduct, hs.lookup?_base b, if_neg haffine, bind,
      Except.bind, UnitProduct.pow, hpow]
  · rw [hexponents]
    exact hpower c

/-- A product or a quotient exists if its exponents are signed bytes. -/
theorem combine_of_fits {a p : UnitProduct} {below : Bool} {v : Exponents}
    (hv : v = if below then a.dimension.exponents - p.dimension.exponents
      else a.dimension.exponents + p.dimension.exponents) (h : v.Fits) :
    ∃ r, a.combine below p = .ok r ∧ r.dimension.exponents = v := by
  obtain ⟨d, hd, hexponents⟩ := exists_of_fits h
  subst hv
  refine ⟨⟨d, if below then a.factor / p.factor else a.factor * p.factor⟩, ?_, hexponents⟩
  cases below with
  | false =>
    have hmul : a.dimension.mul? p.dimension = some d := hd
    simp [UnitProduct.combine, hmul]
  | true =>
    have hdiv : a.dimension.div? p.dimension = some d := hd
    simp [UnitProduct.combine, hdiv]

/-- **Powers of different base units** are multiplied to a product, or it is divided by them. -/
theorem Sound.factorsProduct_powers (hs : s.Sound) (below : Bool) {f : BaseDimension → Int}
    (hnodup : bs.Nodup) (hf : ∀ b ∈ bs, IsWritable (f b)) {a : UnitProduct}
    (ha : ∀ b ∈ bs, a.dimension.exponents b = 0) :
    ∃ p, s.factorsProduct below a (bs.map fun b => powerFactor b (f b)) = .ok p ∧
      ∀ c, p.dimension.exponents c =
        if c ∈ bs then if below then -f c else f c else a.dimension.exponents c := by
  induction bs generalizing a with
  | nil => exact ⟨a, by simp [factorsProduct], fun c => by simp⟩
  | cons b bs ih =>
    obtain ⟨hb, hnodup⟩ := List.nodup_cons.1 hnodup
    have hwritable := hf b List.mem_cons_self
    have hzero := ha b List.mem_cons_self
    obtain ⟨p, hp, hpower⟩ := hs.factorProduct_power b hwritable
    -- The exponent of this base dimension is that of the power, and the others remain.
    let v : Exponents := fun c =>
      if c = b then if below then -f c else f c else a.dimension.exponents c
    have hv : v = if below then a.dimension.exponents - p.dimension.exponents
        else a.dimension.exponents + p.dimension.exponents := by
      funext c
      by_cases hc : c = b <;> cases below <;> simp [v, hc, hpower, hzero]
    have hfits : v.Fits := by
      intro c
      have hbounds := a.dimension.fits_exponents c
      obtain ⟨-, hlow, hhigh⟩ := hwritable
      by_cases hc : c = b <;> cases below <;> simp only [v, hc, if_true, if_false] <;> omega
    obtain ⟨r, hr, hexponents⟩ := combine_of_fits hv hfits
    have hrest : ∀ c ∈ bs, r.dimension.exponents c = 0 := by
      intro c hc
      have hne : c ≠ b := fun heq => hb (heq ▸ hc)
      simp only [hexponents, v, if_neg hne]
      exact ha c (List.mem_cons_of_mem b hc)
    obtain ⟨p', hp', hexponents'⟩ := ih hnodup (fun c hc => hf c (List.mem_cons_of_mem b hc)) hrest
    refine ⟨p', ?_, fun c => ?_⟩
    · rw [List.map_cons, factorsProduct, hp]
      simp only [bind, Except.bind, hr]
      exact hp'
    · rw [hexponents', hexponents]
      by_cases hc : c = b
      · simp [v, hc, hb]
      · simp [v, hc]

/-- **The expression of a dimension has this dimension.** -/
theorem Sound.product_expression (hs : s.Sound) (h : d.IsBounded) :
    ∃ p, s.product d.expression = .ok p ∧ p.dimension = d := by
  have hone (b : BaseDimension) : ({} : UnitProduct).dimension.exponents b = 0 :=
    congrFun exponents_one b
  unfold product Dimension.expression
  split
  next hempty =>
    -- nothing stands above the slash, so the negative powers are written as they are
    obtain ⟨p, hp, hbelow⟩ := hs.factorsProduct_powers false d.nodup_below
      (fun b hb => (h.isWritable_of_mem_below hb).1) fun b _ => hone b
    refine ⟨p, by simp [termProduct, bind, Except.bind, hp, factorsProduct],
      exponents_injective (funext fun b => ?_)⟩
    have hnot : b ∉ d.above := by simp [List.isEmpty_iff.1 hempty]
    rw [mem_above] at hnot
    rw [hbelow, hone]
    split
    next => rfl
    next hb =>
      rw [mem_below] at hb
      omega
  next =>
    obtain ⟨p, hp, habove⟩ := hs.factorsProduct_powers false d.nodup_above
      (fun b hb => h.isWritable_of_mem_above hb) fun b _ => hone b
    have hzero : ∀ b ∈ d.below, p.dimension.exponents b = 0 := by
      intro b hb
      have hneg := mem_below.1 hb
      rw [habove, if_neg (by rw [mem_above]; omega), hone]
    obtain ⟨q, hq, hbelow⟩ := hs.factorsProduct_powers true d.nodup_below
      (fun b hb => (h.isWritable_of_mem_below hb).2) hzero
    refine ⟨q, by simp [termProduct, bind, Except.bind, hp, hq],
      exponents_injective (funext fun b => ?_)⟩
    rw [hbelow, habove, hone, if_pos rfl, Int.neg_neg]
    split
    next => rfl
    next hb =>
      rw [mem_below] at hb
      split
      next => rfl
      next hb' =>
        rw [mem_above] at hb'
        omega

end UnitSystem

end QuantityCalc
