import QuantityCalc.Proofs.Text.Run
import QuantityCalc.Proofs.Text.Trim
import QuantityCalc.Proofs.Unit.Atoms
import QuantityCalc.Proofs.Unit.Front
import QuantityCalc.Proofs.Unit.Rest

/-!
# The grammar of unit expressions

`IsExpression t e` says that the text `t` is derived from the grammar of unit expressions and that
`e` collects its factors: those behind a slash in the denominator, all others in the numerator.

A text is parsed as `e` if and only if, apart from the white space around it, it is an expression
with the factors of `e` (`parse_eq_ok_iff`). Whatever its extent, the reader takes an expression of
atoms that it accepts (`fits_expression`). Conversely it takes such an expression as a whole if what
follows cannot belong to it (`goesOn_of_isExpression`): by induction on the derivation, with room
for as many groups as the text has characters. So the unit behind a number is a unit expression of
known symbols, and such an expression is read as a whole behind a number, unless it begins with a
parenthesis (`isExpression_of_scan?`, `scan?_of_isExpression`).

An expression consists of the characters of symbols, digits and a few marks
(`isExpressionChar_of_isExpression`), so there is no white space in it. One that has no other
characters than those of symbols is a symbol alone (`eq_symbol_of_isExpression`).
-/

namespace QuantityCalc

open Text

namespace UnitExpr

/-- Whether a text is a sequence of digits for a number above zero. -/
structure IsNumber (t : Text) (n : Nat) : Prop where
  ne_nil : t ≠ []
  isDigit : ∀ c ∈ t, c.isDigit = true
  eq : n = Decimal.ofDigits 10 t
  pos : 0 < n

/-- The signs between factors, and whether they are slashes. -/
inductive IsSign : Char → Bool → Prop
  | star : IsSign '*' false
  | dot : IsSign '·' false
  | slash : IsSign '/' true

/-- The texts of exponents. One needs no text. -/
inductive IsExponent : Text → Int8 → Prop
  | one : IsExponent [] 1
  | positive {t : Text} {n : Nat} : IsNumber t n → n ≤ 127 → IsExponent ('^' :: t) (Int8.ofInt n)
  | negative {t : Text} {n : Nat} : IsNumber t n → n ≤ 127 →
      IsExponent ('^' :: '-' :: t) (Int8.ofInt (-n))

mutual

/-- The texts of terms: symbols, integers, and expressions in parentheses. -/
inductive IsTerm : Text → UnitTerm → Prop
  | symbol {t : Text} : t ≠ [] → (∀ c ∈ t, isSymbolChar c = true) →
      IsTerm t (.symbol (String.ofList t))
  | integer {t : Text} {n : Nat} : IsNumber t n → n < UInt64.size → IsTerm t (.integer n)
  | group {t : Text} {e : UnitExpr} : IsExpression t e →
      IsTerm ('(' :: t ++ [')']) (.group e.numerator e.denominator)

/-- The texts of factors: a term with an exponent. -/
inductive IsFactor : Text → UnitFactor → Prop
  | mk {t p : Text} {term : UnitTerm} {n : Int8} : IsTerm t term → IsExponent p n →
      IsFactor (t ++ p) (term, n)

/-- The texts of expressions: one factor, or an expression, a sign and a further factor. -/
inductive IsExpression : Text → UnitExpr → Prop
  | factor {t : Text} {f : UnitFactor} : IsFactor t f → IsExpression t ⟨[f], []⟩
  | push {t t' : Text} {e : UnitExpr} {sign : Char} {below : Bool} {f : UnitFactor} :
      IsExpression t e → IsSign sign below → IsFactor t' f →
      IsExpression (t ++ sign :: t') (e.push below f)

end

/-- Induction on the factors of an expression. -/
theorem IsExpression.induct {motive : (t : Text) → (e : UnitExpr) → IsExpression t e → Prop}
    (factor : ∀ {t : Text} {f : UnitFactor} (hf : IsFactor t f), motive t ⟨[f], []⟩ (.factor hf))
    (push : ∀ {t t' : Text} {e : UnitExpr} {sign : Char} {below : Bool} {f : UnitFactor}
      (he : IsExpression t e) (hsign : IsSign sign below) (hf : IsFactor t' f), motive t e he →
      motive (t ++ sign :: t') (e.push below f) (.push he hsign hf)) {t : Text} {e : UnitExpr} :
    ∀ h : IsExpression t e, motive t e h
  | .factor hf => factor hf
  | .push he hsign hf => push he hsign hf (he.induct factor push)

variable {extent : Extent} {group : Cursor → Except UnitError (UnitExpr × Cursor)} {c d : Cursor}
  {t rest : Text} {e : UnitExpr}

/-- Whether a text is an expression, and the reader accepts its atoms. -/
def Extent.Fits (extent : Extent) (t : Text) (e : UnitExpr) : Prop :=
  IsExpression t e ∧ ∀ a ∈ e.atoms, extent.Accepts a

/-- Whether a text is a term, and the reader accepts its atoms. -/
def Extent.FitsTerm (extent : Extent) (t : Text) (term : UnitTerm) : Prop :=
  IsTerm t term ∧ ∀ a ∈ term.atoms, extent.Accepts a

/-- Whether a text is a factor, and the reader accepts its atoms. -/
def Extent.FitsFactor (extent : Extent) (t : Text) (f : UnitFactor) : Prop :=
  IsFactor t f ∧ ∀ a ∈ f.1.atoms, extent.Accepts a

/-! ## What is read is derived -/

/-- Whatever the reader takes from a text is in relation to its value. -/
def Reads {α : Type} (read : Cursor → Except UnitError (α × Cursor)) (r : Text → α → Prop) : Prop :=
  ∀ ⦃c a d⦄, read c = .ok (a, d) → ∃ t, c.rest = t ++ d.rest ∧ r t a

/-- A sequence of digits is a number unless it is empty or zero. -/
theorem isNumber_takeWhile (hne : (t.takeWhile Char.isDigit) ≠ [])
    (hpos : Decimal.ofDigits 10 (t.takeWhile Char.isDigit) ≠ 0) :
    IsNumber (t.takeWhile Char.isDigit) (Decimal.ofDigits 10 (t.takeWhile Char.isDigit)) :=
  ⟨hne, fun _ hc => List.mem_takeWhile_imp hc, rfl, Nat.pos_of_ne_zero hpos⟩

/-- A term is a symbol that the reader accepts, an integer where it may not stop, or a group. -/
theorem fits_primary (hg : Reads group extent.Fits) :
    Reads (primary extent group) extent.FitsTerm := by
  intro c term d h
  unfold primary at h
  split at h
  · rename_i rest hrest
    obtain ⟨⟨e, g⟩, he, h⟩ := Except.bind_eq_ok.1 h
    obtain ⟨t, ht, he, hatoms⟩ := hg he
    dsimp only at h
    split at h
    · rename_i rest' hclose
      cases h
      refine ⟨_, ?_, .group he, hatoms⟩
      rw [Cursor.rest_moveTo] at ht
      simp [hrest, ht, hclose]
    · cases h
  · rename_i first rest _ hrest
    split at h
    · rename_i hdigit
      obtain ⟨hdigit, hwhole⟩ := Bool.and_eq_true_iff.1 hdigit
      have htake : first :: rest.takeWhile Char.isDigit = (first :: rest).takeWhile Char.isDigit :=
        (List.takeWhile_cons_of_pos hdigit).symm
      dsimp only at h
      split at h
      · cases h
      · rename_i hsize
        split at h
        · cases h
        · rename_i hpos
          cases h
          refine ⟨first :: rest.takeWhile Char.isDigit, by simp [hrest], .integer ?_ ?_, ?_⟩
          · rw [htake] at hpos ⊢
            exact isNumber_takeWhile (by simp [hdigit]) hpos
          · exact Nat.lt_of_not_le hsize
          · rw [UnitTerm.atoms, List.forall_mem_singleton, Extent.accepts_integer_iff]
            exact Bool.not_eq_true' _ ▸ hwhole
    · split at h
      · rename_i hsymbol
        dsimp only at h
        split at h
        · rename_i hadmits
          cases h
          refine ⟨first :: rest.takeWhile isSymbolChar, by simp [hrest], .symbol (by simp) ?_, ?_⟩
          · intro c hc
            rcases List.mem_cons.1 hc with rfl | hc
            · exact hsymbol
            · exact List.mem_takeWhile_imp hc
          · rw [UnitTerm.atoms, List.forall_mem_singleton, Extent.accepts_symbol_iff]
            exact hadmits
        · cases h
      · cases h
  · cases h

/-- A minus is split off if there is one. -/
theorem splitMinus_cases (t : Text) :
    (∃ t', t = '-' :: t' ∧ splitMinus t = (true, t')) ∨ splitMinus t = (false, t) := by
  unfold splitMinus
  split
  · exact Or.inl ⟨_, rfl, rfl⟩
  · exact Or.inr rfl

/-- What is taken as an exponent is in its range. If nothing is taken, the exponent is one. -/
theorem isExponent_of_exponent : Reads (exponent extent) IsExponent := by
  intro c n d h
  unfold exponent at h
  split at h
  · rename_i rest hrest
    dsimp only at h
    split at h
    · split at h
      · cases h
        exact ⟨[], rfl, .one⟩
      · cases h
    · rename_i hne
      split at h
      · cases h
      · rename_i hrange
        split at h
        · cases h
        · rename_i hpos
          cases h
          have hnumber := isNumber_takeWhile (by simpa using hne) hpos
          have hle := Nat.le_of_not_lt hrange
          rw [Cursor.rest_moveTo, hrest]
          rcases splitMinus_cases rest with ⟨rest, rfl, hminus⟩ | hminus <;>
            simp only [hminus] at hnumber hle ⊢
          · exact ⟨_, by simp, .negative hnumber hle⟩
          · exact ⟨_, by simp, .positive hnumber hle⟩
  · cases h
    exact ⟨[], rfl, .one⟩

/-- A factor is a term and its exponent. -/
theorem fits_factor (hg : Reads group extent.Fits) :
    Reads (factor extent group) extent.FitsFactor := by
  intro c f d h
  obtain ⟨⟨term, d₁⟩, hterm, h⟩ := Except.bind_eq_ok.1 h
  obtain ⟨⟨n, d₂⟩, hn, h⟩ := Except.bind_eq_ok.1 h
  cases h
  obtain ⟨t, ht, hterm, hatoms⟩ := fits_primary hg hterm
  obtain ⟨p, hp, hn⟩ := isExponent_of_exponent hn
  exact ⟨t ++ p, by rw [ht, hp, List.append_assoc], .mk hterm hn, hatoms⟩

/-- A sign between factors is one of the three, and only the slash puts a factor below. -/
theorem isSign_of_sign? {below : Bool} (h : sign? t = some (below, rest)) :
    ∃ sign, t = sign :: rest ∧ IsSign sign below := by
  unfold sign? at h
  split at h <;> cases h
  · exact ⟨_, rfl, .star⟩
  · exact ⟨_, rfl, .dot⟩
  · exact ⟨_, rfl, .slash⟩

/-- A sign and a further factor make a longer expression, of atoms that the reader accepts. -/
theorem Extent.Fits.push {t' : Text} {sign : Char} {below : Bool} {f : UnitFactor}
    (h : extent.Fits t e) (hsign : IsSign sign below) (hf : extent.FitsFactor t' f) :
    extent.Fits (t ++ sign :: t') (e.push below f) :=
  ⟨.push h.1 hsign hf.1, fun a ha => (mem_atoms_push.1 ha).elim (h.2 a) (hf.2 a)⟩

theorem Extent.FitsFactor.single {f : UnitFactor} (h : extent.FitsFactor t f) :
    extent.Fits t ⟨[f], []⟩ :=
  ⟨.factor h.1, fun a ha => h.2 a (mem_atoms_single.1 ha)⟩

/-- The factors that follow an expression make a longer one of it. -/
theorem fits_factors (hg : Reads group extent.Fits) {e' : UnitExpr} (rounds : Nat)
    (ht : extent.Fits t e) (h : factors extent group rounds c e = .ok (e', d)) :
    ∃ t', c.rest = t' ++ d.rest ∧ extent.Fits (t ++ t') e' := by
  have hstop : ∃ t', c.rest = t' ++ c.rest ∧ extent.Fits (t ++ t') e :=
    ⟨[], rfl, by rwa [List.append_nil]⟩
  induction rounds generalizing t c e with
  | zero =>
    cases h
    exact hstop
  | succ rounds ih =>
    simp only [factors] at h
    split at h
    · cases h
      exact hstop
    · rename_i below rest hsign
      obtain ⟨sign, hrest, hsign⟩ := isSign_of_sign? hsign
      split at h
      · cases h
        exact hstop
      · split at h
        · rename_i f d₁ hf
          obtain ⟨t₁, ht₁, hf⟩ := fits_factor hg hf
          have hpush := ht.push hsign hf
          obtain ⟨t₂, ht₂, he⟩ := ih hpush h ⟨[], rfl, by rwa [List.append_nil]⟩
          refine ⟨sign :: t₁ ++ t₂, ?_, ?_⟩
          · rw [Cursor.rest_moveTo] at ht₁
            simp [hrest, ht₁, ht₂]
          · rwa [List.append_assoc] at he
        · split at h
          · cases h
            exact hstop
          · cases h

/-- **What the reader takes is an expression of atoms that it accepts.** -/
theorem fits_expression (depth : Nat) : Reads (expression extent depth) extent.Fits := by
  induction depth with
  | zero =>
    intro c e d h
    cases h
  | succ depth ih =>
    intro c e d h
    obtain ⟨⟨f, d₁⟩, hf, h⟩ := Except.bind_eq_ok.1 h
    obtain ⟨t₁, ht₁, hf⟩ := fits_factor ih hf
    obtain ⟨t₂, ht₂, he⟩ := fits_factors ih _ hf.single h
    exact ⟨t₁ ++ t₂, by rw [ht₁, ht₂, List.append_assoc], he⟩

/-! ## What is derived is read -/

/-- What follows a term: no character of a symbol and no digit. -/
def EndsTerm (rest : Text) : Prop := ∀ c ∈ rest.head?, isSymbolChar c = false ∧ c.isDigit = false

/-- What follows a factor: neither what goes on with its term nor an exponent. -/
def EndsFactor (rest : Text) : Prop := EndsTerm rest ∧ rest.head? ≠ some '^'

/-- The reader takes a text in front of `rest`, with a value. -/
def Takes {α : Type} (read : Cursor → Except UnitError (α × Cursor)) (t : Text) (a : α)
    (rest : Text) : Prop :=
  ∀ ⦃c⦄, c.rest = t ++ rest → ∃ d, read c = .ok (a, d) ∧ d.rest = rest

variable {depth n : Nat}

theorem EndsTerm.isDigit (h : EndsTerm rest) : ∀ c ∈ rest.head?, c.isDigit = false :=
  fun c hc => (h c hc).2

theorem EndsTerm.isSymbolChar (h : EndsTerm rest) : ∀ c ∈ rest.head?, isSymbolChar c = false :=
  fun c hc => (h c hc).1

/-- Whether the boundary between a text and what follows is neither in a symbol nor in a number. -/
structure Uncut (t rest : Text) : Prop where
  symbol : KeepsRuns isSymbolChar t rest
  digit : KeepsRuns Char.isDigit t rest

/-- A symbol is not cut in front of the end of a term. -/
theorem EndsTerm.uncut (h : EndsTerm rest) : Uncut t rest :=
  ⟨.of_head? h.isSymbolChar, .of_head? h.isDigit⟩

theorem endsTerm_cons {c : Char} (h : isSymbolChar c = false) (h' : c.isDigit = false)
    (t : Text) : EndsTerm (c :: t) := by
  rintro c' ⟨⟩
  exact ⟨h, h'⟩

/-- An exponent that is written ends the term in front of it. -/
theorem IsExponent.endsTerm {p : Text} {k : Int8} (h : IsExponent p k) (hne : p ≠ [])
    (rest : Text) : EndsTerm (p ++ rest) := by
  cases h with
  | one => exact absurd rfl hne
  | positive | negative => exact endsTerm_cons (by decide) (by decide) _

/-- In front of an exponent, or of what follows it, a term ends. -/
theorem endsTerm_append {p : Text} {k : Int8} (hp : IsExponent p k) (hrest : EndsTerm rest) :
    EndsTerm (p ++ rest) := by
  by_cases hne : p = []
  · rwa [hne]
  · exact hp.endsTerm hne rest

/-- An exponent ends with a digit. -/
theorem IsExponent.isDigit_of_getLast? {p : Text} {k : Int8} (h : IsExponent p k) :
    ∀ c ∈ p.getLast?, c.isDigit = true := by
  have hdigits (front : Text) {t : Text} {n : Nat} (hn : IsNumber t n) :
      ∀ c ∈ (front ++ t).getLast?, c.isDigit = true := by
    intro c hc
    rw [List.getLast?_append_of_ne_nil front hn.ne_nil] at hc
    exact hn.isDigit c (List.mem_of_getLast? hc)
  cases h with
  | one => nofun
  | positive hn => exact hdigits ['^'] hn
  | negative hn => exact hdigits ['^', '-'] hn

/-- In front of a sign between factors, a factor ends. -/
theorem endsFactor_sign {sign : Char} {below : Bool} (h : IsSign sign below) (t : Text) :
    EndsFactor (sign :: t) := by
  cases h <;> exact ⟨endsTerm_cons (by decide +kernel) (by decide) t, by simp⟩

/-- A symbol is taken as a whole if the reader admits it and no character of a symbol follows. -/
theorem takes_symbol (hne : t ≠ []) (ht : ∀ c ∈ t, isSymbolChar c = true)
    (hadmits : extent.admits (String.ofList t) = true)
    (hrest : ∀ c ∈ rest.head?, isSymbolChar c = false) :
    Takes (primary extent group) t (.symbol (String.ofList t)) rest := by
  intro c hc
  match t with
  | first :: t =>
    have hfirst := ht first List.mem_cons_self
    have ht : ∀ c ∈ t, isSymbolChar c = true := fun c hc => ht c (List.mem_cons_of_mem _ hc)
    have hopen : first ≠ '(' := by
      rintro rfl
      exact absurd hfirst (by decide)
    refine ⟨c.moveTo rest, ?_, rfl⟩
    rw [String.ofList_cons] at hadmits
    simp [primary, hc, isDigit_of_isSymbolChar hfirst, hfirst, hadmits,
      takeWhile_run ht hrest, dropWhile_run ht hrest]

/-- An integer is taken as a whole, by a reader that takes all of a text. -/
theorem takes_integer (hn : IsNumber t n) (hsize : n < UInt64.size)
    (hstop : extent.mayStop = false) (hrest : ∀ c ∈ rest.head?, c.isDigit = false) :
    Takes (primary extent group) t (.integer n) rest := by
  intro c hc
  obtain ⟨hne, ht, rfl, hpos⟩ := hn
  match t with
  | first :: t =>
    have hfirst := ht first List.mem_cons_self
    have ht : ∀ c ∈ t, c.isDigit = true := fun c hc => ht c (List.mem_cons_of_mem _ hc)
    have hopen : first ≠ '(' := by
      rintro rfl
      exact absurd hfirst (by decide)
    refine ⟨c.moveTo rest, ?_, rfl⟩
    simp [primary, hc, hfirst, hstop, takeWhile_run ht hrest, dropWhile_run ht hrest,
      Nat.not_le_of_lt hsize, Nat.ne_of_gt hpos]
    rfl

/-- A group is taken with its parentheses. -/
theorem takes_group (hg : Takes group t e (')' :: rest)) :
    Takes (primary extent group) ('(' :: t ++ [')']) (.group e.numerator e.denominator) rest := by
  intro c hc
  obtain ⟨d, hd, hrest⟩ := hg (c := c.moveTo (t ++ ')' :: rest)) rfl
  refine ⟨d.moveTo rest, ?_, rfl⟩
  have hc : c.rest = '(' :: (t ++ ')' :: rest) := by simpa using hc
  simp only [primary, hc, hd, bind, Except.bind, hrest]
  rfl

/-- The digits of an exponent are read up to the first other character. -/
theorem exponent_of_isNumber {negative : Bool} {digits behind : Text} (hn : IsNumber digits n)
    (hle : n ≤ 127) (hrest : ∀ c ∈ rest.head?, c.isDigit = false) (hc : c.rest = '^' :: behind)
    (hminus : splitMinus behind = (negative, digits ++ rest)) :
    exponent extent c = .ok (Int8.ofInt (if negative then -n else n), c.moveTo rest) := by
  obtain ⟨hne, ht, rfl, hpos⟩ := hn
  simp only [exponent, hc, hminus, takeWhile_run ht hrest, dropWhile_run ht hrest]
  rw [if_neg (by simpa using hne), if_neg (Nat.not_lt_of_le hle), if_neg (Nat.ne_of_gt hpos)]

/-- An exponent that is written is read if no digit follows. -/
theorem takes_exponent_of_ne_nil {k : Int8} (h : IsExponent t k) (hne : t ≠ [])
    (hrest : ∀ c ∈ rest.head?, c.isDigit = false) : Takes (exponent extent) t k rest := by
  intro c hc
  cases h with
  | one => exact absurd rfl hne
  | @positive t n hn hle =>
    have hminus : splitMinus (t ++ rest) = (false, t ++ rest) := by
      obtain ⟨hne, ht, -, -⟩ := hn
      cases t with
      | nil => exact absurd rfl hne
      | cons first t =>
        have hfirst : first ≠ '-' := by
          rintro rfl
          exact absurd (ht '-' List.mem_cons_self) (by decide)
        simp [splitMinus, hfirst]
    exact ⟨_, exponent_of_isNumber hn hle hrest hc hminus, rfl⟩
  | @negative t n hn hle =>
    have hminus : splitMinus ('-' :: t ++ rest) = (true, t ++ rest) := rfl
    exact ⟨_, exponent_of_isNumber hn hle hrest hc hminus, rfl⟩

/-- An exponent is taken as a whole in front of the end of a factor. -/
theorem takes_exponent {k : Int8} (h : IsExponent t k) (hrest : EndsFactor rest) :
    Takes (exponent extent) t k rest := by
  by_cases hne : t = []
  · subst hne
    cases h
    intro c hc
    refine ⟨c, ?_, hc⟩
    cases rest with
    | nil => simp [exponent, hc]
    | cons first rest =>
      have hfirst : first ≠ '^' := by simpa using hrest.2
      simp [exponent, hc, hfirst]
  · exact takes_exponent_of_ne_nil h hne hrest.1.isDigit

/-- A factor is taken as its term and its exponent are. -/
theorem takes_factor {p : Text} {term : UnitTerm} {k : Int8}
    (hp : Takes (exponent extent) p k rest)
    (hterm : Takes (primary extent group) t term (p ++ rest)) :
    Takes (factor extent group) (t ++ p) (term, k) rest := by
  intro c hc
  obtain ⟨d₁, hd₁, hrest₁⟩ := hterm (c := c) (by rw [hc, List.append_assoc])
  obtain ⟨d₂, hd₂, hrest₂⟩ := hp hrest₁
  refine ⟨d₂, ?_, hrest₂⟩
  simp only [factor, hd₁, bind, Except.bind, hd₂]
  rfl

/-- Whether a reader that has read an expression goes on with the factors behind it, and has rounds
for all of them. -/
def GoesOn (extent : Extent) (depth : Nat) (t : Text) (e : UnitExpr) (rest : Text) : Prop :=
  ∀ ⦃c⦄, c.rest = t ++ rest → ∃ rounds d, rest.length ≤ rounds ∧ d.rest = rest ∧
    expression extent (depth + 1) c = factors extent (expression extent depth) rounds d e

/-- The first factor of an expression is taken, and the reader goes on behind it. -/
theorem goesOn_factor {f : UnitFactor}
    (hf : Takes (factor extent (expression extent depth)) t f rest) :
    GoesOn extent depth t ⟨[f], []⟩ rest := by
  intro c hc
  obtain ⟨d, hd, hrest⟩ := hf hc
  refine ⟨d.rest.length, d, by rw [hrest], hrest, ?_⟩
  simp only [expression, hd, bind, Except.bind]

/-- A reader that may stop does not stop before a factor of atoms that it accepts. -/
theorem Extent.FitsFactor.goesOn {f : UnitFactor} (h : extent.FitsFactor t f)
    (hstop : extent.mayStop = true) (rest : Text) : UnitExpr.goesOn (t ++ rest) = true := by
  obtain ⟨hf, hatoms⟩ := h
  obtain ⟨known, rfl⟩ : ∃ known, extent = .longest known := by
    cases extent with
    | whole => cases hstop
    | longest known => exact ⟨known, rfl⟩
  cases hf with
  | mk hterm _ =>
    cases hterm with
    | symbol hne hname =>
      obtain ⟨c, name, rfl⟩ := List.exists_cons_of_ne_nil hne
      simp [UnitExpr.goesOn, hname c List.mem_cons_self]
    | integer => exact (hatoms _ List.mem_cons_self).elim
    | group => rfl

/-- Behind a sign, a reader of factors goes on with the factor that it reads there. -/
theorem factors_of_isSign {sign : Char} {below : Bool} {f f' : UnitFactor} {t' : Text}
    (hsign : IsSign sign below) (hfits : extent.FitsFactor t' f)
    (hc : c.rest = sign :: t' ++ rest)
    (hf : factor extent group (c.moveTo (t' ++ rest)) = .ok (f', d)) (rounds : Nat) :
    factors extent group (rounds + 1) c e = factors extent group rounds d (e.push below f') := by
  have hsign? : sign? c.rest = some (below, t' ++ rest) := by
    rw [hc]
    cases hsign <;> rfl
  have hgoes : ¬(extent.mayStop && !UnitExpr.goesOn (t' ++ rest)) = true := by
    intro h
    obtain ⟨hstop, hnot⟩ := Bool.and_eq_true_iff.1 h
    rw [hfits.goesOn hstop] at hnot
    cases hnot
  simp only [factors, hsign?, if_neg hgoes, hf]

/-- A reader that goes on behind an expression goes on behind the longer one, too. -/
theorem goesOn_push {sign : Char} {below : Bool} {f : UnitFactor} {t' : Text}
    (he : GoesOn extent depth t e (sign :: t' ++ rest)) (hsign : IsSign sign below)
    (hfits : extent.FitsFactor t' f)
    (hf : Takes (factor extent (expression extent depth)) t' f rest) :
    GoesOn extent depth (t ++ sign :: t') (e.push below f) rest := by
  intro c hc
  obtain ⟨rounds, d₁, hrounds, hrest₁, heq⟩ := he (c := c) (by rw [hc, List.append_assoc])
  obtain ⟨d, hd, hrest⟩ := hf (c := d₁.moveTo (t' ++ rest)) rfl
  rw [List.cons_append, List.length_cons, List.length_append] at hrounds
  obtain ⟨rounds, rfl⟩ : ∃ m, rounds = m + 1 := Nat.exists_eq_succ_of_ne_zero (by omega)
  refine ⟨rounds, d, by omega, hrest, ?_⟩
  rw [heq, factors_of_isSign hsign hfits hrest₁ hd]

/-- An expression is taken as a whole if no sign follows. -/
theorem takes_of_goesOn (h : GoesOn extent depth t e rest) (hrest : sign? rest = none) :
    Takes (expression extent (depth + 1)) t e rest := by
  intro c hc
  obtain ⟨rounds, d, -, hd, heq⟩ := h hc
  refine ⟨d, ?_, hd⟩
  rw [heq]
  cases rounds with
  | zero => rfl
  | succ rounds => simp only [factors, hd, hrest]

mutual

theorem takes_of_isTerm {t : Text} {term : UnitTerm} : IsTerm t term →
    ∀ {depth rest}, (∀ a ∈ term.atoms, extent.Accepts a) → t.length ≤ depth → Uncut t rest →
      Takes (primary extent (expression extent depth)) t term rest
  | .symbol hne ht, _, _, hatoms, _, hrest =>
    takes_symbol hne ht (Extent.accepts_symbol_iff.1 (hatoms _ List.mem_cons_self))
      (hrest.symbol.head? hne ht)
  | .integer hn hsize, _, _, hatoms, _, hrest =>
    takes_integer hn hsize (Extent.accepts_integer_iff.1 (hatoms _ List.mem_cons_self))
      (hrest.digit.head? hn.ne_nil hn.isDigit)
  | .group (t := t) he, depth, rest, hatoms, hdepth, _ => by
    obtain ⟨depth, rfl⟩ : ∃ m, depth = m + 1 :=
      Nat.exists_eq_succ_of_ne_zero (by simp at hdepth; omega)
    have hinner : t.length ≤ depth := by simp at hdepth; omega
    have hclose : EndsFactor (')' :: rest) :=
      ⟨endsTerm_cons (by decide) (by decide) rest, by simp⟩
    exact takes_group (takes_of_goesOn (goesOn_of_isExpression he hatoms hinner hclose) rfl)

theorem takes_of_isFactor {t : Text} {f : UnitFactor} : IsFactor t f →
    ∀ {depth rest}, (∀ a ∈ f.1.atoms, extent.Accepts a) → t.length ≤ depth → EndsFactor rest →
      Takes (factor extent (expression extent depth)) t f rest
  | .mk hterm hp, _, _, hatoms, hdepth, hrest => by
    rw [List.length_append] at hdepth
    have hends := endsTerm_append hp hrest.1
    exact takes_factor (takes_exponent hp hrest)
      (takes_of_isTerm hterm hatoms (by omega) hends.uncut)

theorem goesOn_of_isExpression {t : Text} {e : UnitExpr} : IsExpression t e →
    ∀ {depth rest}, (∀ a ∈ e.atoms, extent.Accepts a) → t.length ≤ depth → EndsFactor rest →
      GoesOn extent depth t e rest
  | .factor hf, _, _, hatoms, hdepth, hrest =>
    goesOn_factor (takes_of_isFactor hf (fun a ha => hatoms a (mem_atoms_single.2 ha)) hdepth hrest)
  | .push he hsign hf, _, _, hatoms, hdepth, hrest => by
    rw [List.length_append, List.length_cons] at hdepth
    have hfits : extent.FitsFactor _ _ := ⟨hf, fun a ha => hatoms a (mem_atoms_push.2 (.inr ha))⟩
    have hbefore := fun a ha => hatoms a (mem_atoms_push.2 (.inl ha))
    exact goesOn_push
      (goesOn_of_isExpression he hbefore (by omega) (endsFactor_sign hsign _)) hsign hfits
      (takes_of_isFactor hf hfits.2 (by omega) hrest)

end

theorem ne_nil_of_isTerm {term : UnitTerm} (h : IsTerm t term) : t ≠ [] := by
  cases h with
  | symbol hne => exact hne
  | integer hn => exact hn.ne_nil
  | group => simp

theorem ne_nil_of_isFactor {f : UnitFactor} (h : IsFactor t f) : t ≠ [] := by
  cases h with
  | mk hterm => simp [ne_nil_of_isTerm hterm]

theorem ne_nil_of_isExpression {e : UnitExpr} (h : IsExpression t e) : t ≠ [] := by
  cases h with
  | factor hf => exact ne_nil_of_isFactor hf
  | push => simp

/-! ## The characters of expressions -/

/-- The characters of expressions that stand neither in symbols nor in numbers. -/
def expressionMarks : List Char := ['(', ')', '^', '-', '*', '·', '/']

/-- Whether a character may stand in an expression. -/
def IsExpressionChar (c : Char) : Prop :=
  isSymbolChar c = true ∨ c.isDigit = true ∨ c ∈ expressionMarks

theorem isExpressionChar_of_mark {c : Char} (h : c ∈ expressionMarks) : IsExpressionChar c :=
  Or.inr (Or.inr h)

theorem IsNumber.isExpressionChar (h : IsNumber t n) : ∀ c ∈ t, IsExpressionChar c :=
  fun c hc => Or.inr (Or.inl (h.isDigit c hc))

theorem IsExponent.isExpressionChar {k : Int8} (h : IsExponent t k) :
    ∀ c ∈ t, IsExpressionChar c := by
  have hcaret : IsExpressionChar '^' := isExpressionChar_of_mark (by decide)
  have hminus : IsExpressionChar '-' := isExpressionChar_of_mark (by decide)
  cases h with
  | one => nofun
  | positive hn => exact List.forall_mem_cons.2 ⟨hcaret, hn.isExpressionChar⟩
  | negative hn =>
    exact List.forall_mem_cons.2 ⟨hcaret, List.forall_mem_cons.2 ⟨hminus, hn.isExpressionChar⟩⟩

mutual

theorem isExpressionChar_of_isTerm {t : Text} {term : UnitTerm} : IsTerm t term →
    ∀ c ∈ t, IsExpressionChar c
  | .symbol _ ht => fun c hc => Or.inl (ht c hc)
  | .integer hn _ => hn.isExpressionChar
  | .group he => List.forall_mem_append.2 ⟨List.forall_mem_cons.2
      ⟨isExpressionChar_of_mark (by decide), isExpressionChar_of_isExpression he⟩,
      List.forall_mem_singleton.2 (isExpressionChar_of_mark (by decide))⟩

theorem isExpressionChar_of_isFactor {t : Text} {f : UnitFactor} : IsFactor t f →
    ∀ c ∈ t, IsExpressionChar c
  | .mk hterm hp => List.forall_mem_append.2
      ⟨isExpressionChar_of_isTerm hterm, hp.isExpressionChar⟩

/-- An expression consists of the characters of symbols, digits and marks. -/
theorem isExpressionChar_of_isExpression {t : Text} {e : UnitExpr} : IsExpression t e →
    ∀ c ∈ t, IsExpressionChar c
  | .factor hf => isExpressionChar_of_isFactor hf
  | .push he hsign hf => List.forall_mem_append.2 ⟨isExpressionChar_of_isExpression he,
      List.forall_mem_cons.2 ⟨isExpressionChar_of_mark (by cases hsign <;> decide),
        isExpressionChar_of_isFactor hf⟩⟩

end

/-- There is no white space in an expression. -/
theorem isBlank_of_isExpression (h : IsExpression t e) : ∀ c ∈ t, isBlank c = false := by
  have hmarks : ∀ c ∈ expressionMarks, isBlank c = false := forall_mem_of_all (by decide)
  intro c hc
  rcases isExpressionChar_of_isExpression h c hc with hsymbol | hdigit | hmark
  · exact isBlank_of_isSymbolChar hsymbol
  · exact isBlank_of_isDigit hdigit
  · exact hmarks c hmark

theorem trim_of_isExpression (h : IsExpression t e) : trim t = t :=
  trim_of_forall (isBlank_of_isExpression h)

/-- An expression without integers starts with a symbol, or with a parenthesis. -/
theorem isSymbolChar_of_isExpression {t : Text} {e : UnitExpr} : IsExpression t e →
    (∀ n, .integer n ∉ e.atoms) → t.head? ≠ some '(' → t.head?.any isSymbolChar = true
  | .factor hf, hatoms, hopen => by
    cases hf with
    | mk hterm _ =>
      cases hterm with
      | symbol hne ht =>
        obtain ⟨c, t, rfl⟩ := List.exists_cons_of_ne_nil hne
        simp [ht c List.mem_cons_self]
      | integer => exact absurd (mem_atoms_single.2 List.mem_cons_self) (hatoms _)
      | group => exact absurd rfl hopen
  | .push (t := t) he _ _, hatoms, hopen => by
    have hne := ne_nil_of_isExpression he
    have hhead := isSymbolChar_of_isExpression he fun n hn => hatoms n (mem_atoms_push.2 (.inl hn))
    rw [List.head?_append_of_ne_nil _ hne] at hopen ⊢
    exact hhead hopen

/-- The expression that is one symbol. -/
abbrev symbol (name : String) : UnitExpr := ⟨[(.symbol name, 1)], []⟩

theorem eq_symbol_of_single? {name : String} (h : e.single? = some name) : e = symbol name := by
  obtain ⟨numerator, denominator⟩ := e
  unfold single? at h
  split at h
  next hnumerator hdenominator =>
    cases h
    simp only at hnumerator hdenominator
    rw [hnumerator, hdenominator]
    rfl
  next => cases h

/-- **An expression whose text is a symbol is that symbol alone.** -/
theorem eq_symbol_of_isExpression (h : IsExpression t e) (ht : ∀ c ∈ t, isSymbolChar c = true) :
    e = symbol (String.ofList t) := by
  have hnot {c : Char} (hc : isSymbolChar c = false) : c ∉ t := by
    intro hmem
    rw [ht c hmem] at hc
    cases hc
  cases h with
  | @push _ _ _ sign _ _ _ hsign _ =>
    have hc : isSymbolChar sign = false := by cases hsign <;> decide +kernel
    exact absurd (by simp) (hnot hc)
  | factor hf =>
    cases hf with
    | mk hterm hp =>
      cases hp with
      | positive => exact absurd (by simp) (hnot (c := '^') (by decide))
      | negative => exact absurd (by simp) (hnot (c := '^') (by decide))
      | one =>
        rw [List.append_nil]
        cases hterm with
        | symbol => rfl
        | group => exact absurd (by simp) (hnot (c := '(') (by decide))
        | integer hn =>
          obtain ⟨c, digits, rfl⟩ := List.exists_cons_of_ne_nil hn.ne_nil
          have hdigit := hn.isDigit c List.mem_cons_self
          rw [isDigit_of_isSymbolChar (ht c (by simp))] at hdigit
          cases hdigit

/-! ## Parsing -/

/-- What is parsed is an expression. -/
theorem isExpression_of_parse (h : parse t = .ok e) : IsExpression (trim t) e := by
  simp only [parse] at h
  split at h
  · cases h
  · obtain ⟨⟨e', d⟩, hread, h⟩ := Except.bind_eq_ok.1 h
    obtain ⟨t', ht', he, -⟩ := fits_expression _ hread
    dsimp only at h
    split at h
    · rename_i hnil
      cases h
      rw [List.isEmpty_iff.1 hnil, List.append_nil, Cursor.rest_start] at ht'
      rwa [ht']
    · cases h

/-- An expression of atoms that the reader accepts is read as a whole. -/
theorem read_of_fits (h : extent.Fits t e) : ∃ d, read extent t = .ok (e, d) ∧ d.rest = [] := by
  have hgoes : GoesOn extent t.length t e [] :=
    goesOn_of_isExpression h.1 h.2 (Nat.le_refl _) ⟨nofun, nofun⟩
  exact takes_of_goesOn hgoes rfl (c := .start t) (List.append_nil _).symm

/-- An expression is parsed. -/
theorem parse_of_isExpression (h : IsExpression (trim t) e) : parse t = .ok e := by
  have hfits : Extent.Fits .whole (trim t) e := ⟨h, fun _ _ => trivial⟩
  obtain ⟨d, hd, hrest⟩ := read_of_fits hfits
  simp only [parse]
  rw [if_neg (by simpa using ne_nil_of_isExpression h), hd]
  simp only [bind, Except.bind, hrest]
  rfl

/-- An expression is parsed as it stands. -/
theorem parse_eq_of_isExpression (h : IsExpression t e) : parse t = .ok e :=
  parse_of_isExpression (by rwa [trim_of_isExpression h])

/-- **A text is parsed as an expression if and only if it is derived from the grammar**, apart from
the white space around it. -/
theorem parse_eq_ok_iff {e : UnitExpr} : parse t = .ok e ↔ IsExpression (trim t) e :=
  ⟨isExpression_of_parse, parse_of_isExpression⟩

example : parse "Kg*m/s^-2".toList =
    .ok ⟨[(.symbol "Kg", 1), (.symbol "m", 1)], [(.symbol "s", -2)]⟩ := by rfl

/-! ## The unit behind a number -/

variable {known : String → Bool}

/-- **The unit behind a number is an expression of known symbols.** -/
theorem isExpression_of_scan? (h : scan? known t = some (e, rest)) :
    ∃ used, t = used ++ rest ∧ Extent.Fits (.longest known) used e := by
  unfold scan? at h
  split at h
  · split at h
    · rename_i hread
      cases h
      exact fits_expression _ hread
    · cases h
  · cases h

/-- **An expression of known symbols is read as a whole behind a number**, if it starts with a
symbol. -/
theorem scan?_of_isExpression (h : Extent.Fits (.longest known) t e)
    (hhead : t.head?.any isSymbolChar = true) : scan? known t = some (e, []) := by
  obtain ⟨d, hd, hrest⟩ := read_of_fits h
  rw [scan?, if_pos hhead, hd]
  simp only [hrest]

end UnitExpr

end QuantityCalc
