import QuantityCalc.Lexeme.Sequence
import QuantityCalc.Proofs.Lexeme.Literal
import QuantityCalc.Proofs.Text.Place
import QuantityCalc.Proofs.Text.Trim
import Mathlib.Logic.Function.Iterate

/-!
# Texts as sequences of lexemes

Calls for the next lexeme pass over white space and the spelling of what they yield, and nothing
else. Where no lexeme starts, they yield nothing (`Lexeme.scan?_eq_none_iff`), and only there a
strict and a lenient reader answer differently (`Lexeme.answers`). So both find the same sequence of
lexemes in a text, which is not longer than the text (`Lexeme.sequence_covers`).
-/

namespace QuantityCalc

open Text

variable {decimalComma : Bool} {t u rest : Text} {c d : Cursor} {m : Lexeme.Manner} {l : Lexeme}

theorem Cursor.skipBlanks_skipBlanks (c : Cursor) : c.skipBlanks.skipBlanks = c.skipBlanks := by
  have htrim : c.skipBlanks.rest = [] ++ trimStart c.skipBlanks.rest :=
    (trimStart_trimStart c.rest).symm
  exact congrArg₂ Cursor.mk (position_moveTo htrim) htrim.symm

/-! ## Fronts of texts -/

namespace Lexeme

theorem scan?_mark {c : Char} (hmark : isMark c = true) (t : Text) :
    scan? decimalComma (c :: t) = some (.mark c, t) := by
  have hopen : c ≠ '(' := by
    rintro rfl
    cases hmark
  have hclose : c ≠ ')' := by
    rintro rfl
    cases hmark
  simp [scan?, hmark]

theorem operator?_of_append {c : Char} {t : Text} (h : operator? (c :: (t ++ u)) = none) :
    operator? (c :: t) = none := by
  match t, u with
  | [], [] => exact h
  | [], d :: u =>
    rw [List.nil_append, operator?_cons_cons] at h
    rw [operator?_single]
    split at h
    · cases h
    · simpa using h
  | d :: t, u =>
    rw [List.cons_append, operator?_cons_cons] at h
    rw [operator?_cons_cons]
    split at h
    · cases h
    · simpa using h

/-- A text starts with a parenthesis, a mark, a digit, the first character of a name or the spelling
of an operator. -/
inductive Starts : Text → Prop
  | paren {c : Char} {t : Text} (hparen : c ∈ ['(', ')']) : Starts (c :: t)
  | mark {c : Char} {t : Text} (hmark : isMark c = true) : Starts (c :: t)
  | number {c : Char} {t : Text} (hdigit : c.isDigit = true) : Starts (c :: t)
  | name {c : Char} {t : Text} (hstart : Name.isStart c = true) : Starts (c :: t)
  | operator {op : Operator} {t : Text} (hop : op ∈ Operator.spelled) :
      Starts (op.symbol.toList ++ t)

theorem starts_of_scan? (h : scan? decimalComma t = some (l, rest)) : Starts t := by
  cases front_of_scan? h with
  | parenOpen | parenClose => exact .paren (by decide)
  | mark hmark => exact .mark hmark
  | number hdigit => exact .number hdigit
  | name hscan =>
    match t with
    | c :: t => exact .name (Name.isStart_of_scan? hscan c rfl)
  | operator hop =>
    rw [← symbol_append_of_operator? hop]
    exact .operator (mem_spelled_of_scan? h)

theorem scan?_ne_none_of_starts (h : Starts t) : scan? decimalComma t ≠ none := by
  cases h with
  | paren hparen =>
    simp only [List.mem_cons, List.not_mem_nil, or_false] at hparen
    rcases hparen with rfl | rfl <;> simp [scan?]
  | mark hmark => simp [scan?_mark hmark]
  | @number c t hdigit =>
    rw [scan?_of_isDigit hdigit, Ne, Option.map_eq_none_iff]
    exact Literal.scan?_ne_none hdigit _ t
  | @name c t hstart =>
    have hname : Name.scan? (c :: t) =
        some (c :: t.takeWhile Name.isChar, t.dropWhile Name.isChar) := if_pos hstart
    simp [scan?_eq_name_iff.2 hname]
  | @operator op u hop =>
    obtain ⟨c, v, hsymbol, hc, -⟩ := Operator.symbol_eq_cons hop
    have hself := operator?_symbol hop
    rw [hsymbol] at hself ⊢
    obtain ⟨hopen, hclose, hmark, hdigit, hstart⟩ := front_of_mem_signs c hc
    simp only [List.cons_append, scan?, hmark, hdigit, hstart, Bool.false_eq_true, if_false, Ne,
      Option.map_eq_none_iff]
    intro hnone
    rw [operator?_of_append hnone] at hself
    cases hself

theorem scan?_eq_none_iff : scan? decimalComma t = none ↔ ¬Starts t := by
  refine ⟨fun h hstarts => scan?_ne_none_of_starts hstarts h, fun h => ?_⟩
  cases hscan : scan? decimalComma t with
  | none => rfl
  | some lr => exact absurd (starts_of_scan? hscan) h

/-! ## Calls -/

/-- The place after a number of calls that read one lexeme each. -/
def after (m : Manner) (n : Nat) (c : Cursor) : Cursor := (fun c => (next m c).2)^[n] c

/-- A call that yields a lexeme moves forward in a text, over white space and the spelling of the
lexeme. -/
structure Covers (decimalComma : Bool) (t : Text) (c : Cursor) (l : Lexeme) (d : Cursor) :
    Prop where
  forward : c.position < d.position
  inside : d.In t
  cover : ∃ blanks, (∀ b ∈ blanks, isBlank b = true) ∧
    c.rest = blanks ++ (l.spelling ++ d.rest) ∧
    d.position = c.position + bytes (blanks ++ l.spelling)
  literal : ∀ n, l = .number n →
    Literal.scan? decimalComma (n.spelling ++ d.rest) = some (n, d.rest)

/-- What a strict and a lenient reader answer at a place in a text. -/
inductive Answers (decimalComma : Bool) (t : Text) (c : Cursor) : Prop
  /-- At the end of the text, both answer that there is no lexeme. -/
  | atEnd (hrest : c.skipBlanks.rest = [])
      (hnext : ∀ strict, next ⟨strict, decimalComma⟩ c = (.ok none, c.skipBlanks))
  /-- Where a lexeme starts, both yield the same one. -/
  | lexeme (l : Lexeme) (d : Cursor) (hcovers : Covers decimalComma t c l d)
      (hnext : ∀ strict, next ⟨strict, decimalComma⟩ c = (.ok (some l), d))
  /-- In front of a character that starts no lexeme, the lenient reader answers that there is none,
  and the strict one reports the character and its position. -/
  | stuck (found : Char) (rest : Text) (hrest : c.skipBlanks.rest = found :: rest)
      (hstarts : ¬Starts (found :: rest))
      (hlenient : next ⟨false, decimalComma⟩ c = (.ok none, c.skipBlanks))
      (hstrict : next ⟨true, decimalComma⟩ c =
        (.error (.unexpectedChar c.skipBlanks.position found), c.skipBlanks))

theorem covers_of_scan? (hc : c.In t)
    (h : scan? decimalComma c.skipBlanks.rest = some (l, rest)) :
    Covers decimalComma t c l (c.skipBlanks.moveTo rest) := by
  have happend := spelling_append_of_scan? h
  have hrest : c.rest = c.rest.takeWhile isBlank ++ (l.spelling ++ rest) := by
    rw [happend]
    exact List.takeWhile_append_dropWhile.symm
  have hposition : (c.skipBlanks.moveTo rest).position =
      c.position + bytes (c.rest.takeWhile isBlank ++ l.spelling) := by
    rw [Cursor.position_moveTo happend.symm, bytes_append, ← Nat.add_assoc]
    congr 1
    exact Cursor.position_moveTo List.takeWhile_append_dropWhile.symm
  have hpos := bytes_pos (spelling_ne_nil_of_scan? h)
  exact {
    forward := by
      rw [hposition, bytes_append]
      omega
    inside := hc.skipBlanks.moveTo (isBehind_of_scan? h).suffix
    cover := ⟨_, fun _ hb => List.mem_takeWhile_imp hb, hrest, hposition⟩
    literal := by
      rintro n rfl
      have hliteral := literal_of_scan? h
      rw [← happend] at hliteral
      exact hliteral }

/-- **What the two readers answer.** -/
theorem answers (decimalComma : Bool) (hc : c.In t) : Answers decimalComma t c := by
  cases hscan : scan? decimalComma c.skipBlanks.rest with
  | some lr =>
    obtain ⟨l, rest⟩ := lr
    exact .lexeme l _ (covers_of_scan? hc hscan) fun strict => by simp only [next_eq, hscan]
  | none =>
    cases hrest : c.skipBlanks.rest with
    | nil =>
      rw [hrest] at hscan
      exact .atEnd hrest fun strict => by simp only [next_eq, hrest, hscan]
    | cons found rest =>
      rw [hrest] at hscan
      refine .stuck found rest hrest (scan?_eq_none_iff.1 hscan) ?_ ?_
      · simp only [next_eq, hrest, hscan, Bool.false_eq_true, if_false]
      · simp only [next_eq, hrest, hscan, if_true]

theorem Answers.exists_place (hc : c.In t) (h : Answers decimalComma t c) :
    ∃ d, (∀ strict, (next ⟨strict, decimalComma⟩ c).2 = d) ∧ d.In t := by
  cases h with
  | atEnd _ hnext => exact ⟨_, fun strict => by rw [hnext], hc.skipBlanks⟩
  | lexeme l d hcovers hnext => exact ⟨d, fun strict => by rw [hnext], hcovers.inside⟩
  | stuck _ _ _ _ hlenient hstrict =>
    refine ⟨_, fun strict => ?_, hc.skipBlanks⟩
    cases strict
    · rw [hlenient]
    · rw [hstrict]

/-- Both readers are at the same place of the text after the same number of calls. -/
theorem exists_after (decimalComma : Bool) (t : Text) (n : Nat) :
    ∃ c, (∀ strict, after ⟨strict, decimalComma⟩ n (.start t) = c) ∧ c.In t := by
  induction n with
  | zero => exact ⟨.start t, fun _ => rfl, Cursor.in_start t⟩
  | succ n ih =>
    obtain ⟨c, hafter, hc⟩ := ih
    obtain ⟨d, hnext, hd⟩ := (answers decimalComma hc).exists_place hc
    refine ⟨d, fun strict => ?_, hd⟩
    rw [after, Function.iterate_succ_apply', ← after, hafter, hnext]

/-! ## Sequences -/

/-- A call that yields no lexeme moves behind the white space. -/
theorem next_eq_or (m : Manner) (c : Cursor) :
    (∃ l d, next m c = (.ok (some l), d)) ∨ (next m c).2 = c.skipBlanks := by
  simp only [next_eq]
  split
  · exact .inl ⟨_, _, rfl⟩
  · split
    · exact .inr rfl
    · split <;> exact .inr rfl

/-- Behind a call that yields no lexeme, every call answers the same. -/
theorem next_after (h : ∀ l d, next m c ≠ (.ok (some l), d)) (n : Nat) :
    next m (after m n c) = next m c := by
  induction n with
  | zero => rfl
  | succ n ih =>
    have hplace : (next m c).2 = c.skipBlanks :=
      (next_eq_or m c).resolve_left fun ⟨l, d, hnext⟩ => h l d hnext
    rw [after, Function.iterate_succ_apply', ← after, ih, hplace]
    unfold next
    rw [Cursor.skipBlanks_skipBlanks]

theorem lexemes_of_next (h : next m c = (.ok (some l), d)) :
    (sequence m c).lexemes = (l, d.position) :: (sequence m d).lexemes := by
  rw [sequence]
  split
  · rename_i heq
    cases h.symm.trans heq
    rfl
  · rename_i heq
    cases h.symm.trans heq
  · rename_i heq
    cases h.symm.trans heq

theorem lexemes_of_not_next (h : ∀ l d, next m c ≠ (.ok (some l), d)) :
    (sequence m c).lexemes = [] := by
  rw [sequence]
  split
  · rename_i heq
    exact absurd heq (h _ _)
  · rfl
  · rfl

/-- The sequence of a text lists what the calls yield. -/
theorem getElem?_lexemes (m : Manner) (n : Nat) (c : Cursor) (l : Lexeme) (p : Nat) :
    (sequence m c).lexemes[n]? = some (l, p) ↔
      ∃ d, next m (after m n c) = (.ok (some l), d) ∧ d.position = p := by
  by_cases h : ∃ l d, next m c = (.ok (some l), d)
  · obtain ⟨l', d, hnext⟩ := h
    rw [lexemes_of_next hnext]
    cases n with
    | zero => simp [after, hnext]
    | succ n =>
      have ih := getElem?_lexemes m n d l p
      rw [List.getElem?_cons_succ, ih, after, after, Function.iterate_succ_apply, hnext]
  · simp only [not_exists] at h
    rw [lexemes_of_not_next h, next_after h]
    simp [h]

theorem length_lexemes_le (m : Manner) (c : Cursor) :
    (sequence m c).lexemes.length ≤ c.rest.length := by
  fun_induction sequence m c with
  | case1 c l d hnext hlength s ih =>
    exact Nat.lt_of_le_of_lt ih hlength
  | case2 | case3 => exact Nat.zero_le _

/-- **The calls for lexemes cover a text.** After any number of calls, a strict and a lenient reader
are at the same place of the text and answer as `Answers` says. What the calls yield makes a
sequence, of at most as many lexemes as the text has characters. -/
theorem sequence_covers (decimalComma : Bool) (t : Text) :
    (∀ n, ∃ c, (∀ strict, after ⟨strict, decimalComma⟩ n (.start t) = c) ∧ c.In t ∧
      Answers decimalComma t c) ∧
    ∀ strict, (sequence ⟨strict, decimalComma⟩ (.start t)).lexemes.length ≤ t.length ∧
      ∀ n l p, (sequence ⟨strict, decimalComma⟩ (.start t)).lexemes[n]? = some (l, p) ↔
        ∃ d, next ⟨strict, decimalComma⟩ (after ⟨strict, decimalComma⟩ n (.start t)) =
          (.ok (some l), d) ∧ d.position = p := by
  refine ⟨fun n => ?_, fun strict => ⟨length_lexemes_le _ _, fun n => getElem?_lexemes _ n _⟩⟩
  obtain ⟨c, hafter, hc⟩ := exists_after decimalComma t n
  exact ⟨c, hafter, hc, answers decimalComma hc⟩

end Lexeme

end QuantityCalc
