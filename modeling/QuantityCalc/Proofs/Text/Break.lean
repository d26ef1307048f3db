import QuantityCalc.Text.Basic
import QuantityCalc.Text.Letter

/-!
# Breaks between words

A break is what may follow a word: nothing, a space or a semicolon and further text, or a comma with
a space behind it. What is read at the front of a word does not change when a break follows it
(`takeWhile_append_of_isBreak`, `dropWhile_append_of_isBreak`). White space and letters exclude each
other (`isLetter_of_isBlank`).
-/

namespace QuantityCalc.Text

/-- The characters that end the word before them. -/
def breaks : List Char := [' ', ';', ',']

theorem forall_breaks {P : Char → Prop} (hspace : P ' ') (hsemicolon : P ';') (hcomma : P ',') :
    ∀ c ∈ breaks, P c := by
  simp [breaks, hspace, hsemicolon, hcomma]

/-- What holds of every character of a text can be computed. -/
theorem forall_mem_of_all {P : Char → Prop} [DecidablePred P] {t : Text}
    (h : t.all (P ·) = true) : ∀ c ∈ t, P c :=
  fun c hc => of_decide_eq_true (List.all_eq_true.1 h c hc)

/-- A text that ends the word before it: it is over, or it goes on with a break. A comma with a
digit behind it may be a decimal sign, so it is a break only in front of a space. -/
inductive IsBreak : Text → Prop where
  | nil : IsBreak []
  | space (r : Text) : IsBreak (' ' :: r)
  | semicolon (r : Text) : IsBreak (';' :: r)
  | comma (r : Text) : IsBreak (',' :: ' ' :: r)

theorem IsBreak.mem_breaks {r : Text} (hr : IsBreak r) : ∀ c ∈ r.head?, c ∈ breaks := by
  cases hr with
  | nil => nofun
  | space r | semicolon r | comma r =>
    rintro _ ⟨⟩
    decide

theorem IsBreak.eq_nil_or_cons {r : Text} (hr : IsBreak r) :
    r = [] ∨ ∃ b ∈ breaks, ∃ r', r = b :: r' := by
  match r with
  | [] => exact .inl rfl
  | b :: r' => exact .inr ⟨b, hr.mem_breaks b rfl, r', rfl⟩

variable {p : Char → Bool} {r t : Text}

theorem takeWhile_of_head? (hr : ∀ c ∈ r.head?, p c = false) : r.takeWhile p = [] := by
  match r with
  | [] => rfl
  | c :: r' => rw [List.takeWhile_cons_of_neg (by simp [hr c rfl])]

theorem dropWhile_of_head? (hr : ∀ c ∈ r.head?, p c = false) : r.dropWhile p = r := by
  match r with
  | [] => rfl
  | c :: r' => rw [List.dropWhile_cons_of_neg (by simp [hr c rfl])]

/-- The characters of a run are taken up to the first other one. -/
theorem takeWhile_run (ht : ∀ c ∈ t, p c = true) (hr : ∀ c ∈ r.head?, p c = false) :
    (t ++ r).takeWhile p = t := by
  rw [List.takeWhile_append_of_pos ht, takeWhile_of_head? hr, List.append_nil]

theorem dropWhile_run (ht : ∀ c ∈ t, p c = true) (hr : ∀ c ∈ r.head?, p c = false) :
    (t ++ r).dropWhile p = r := by
  rw [List.dropWhile_append_of_pos ht, dropWhile_of_head? hr]

theorem takeWhile_append_of_head? (hr : ∀ c ∈ r.head?, p c = false) (t : Text) :
    (t ++ r).takeWhile p = t.takeWhile p := by
  rw [List.takeWhile_append, takeWhile_of_head? hr]
  split
  · rename_i h
    rw [List.append_nil, (List.takeWhile_sublist p).eq_of_length h]
  · rfl

theorem dropWhile_append_of_head? (hr : ∀ c ∈ r.head?, p c = false) (t : Text) :
    (t ++ r).dropWhile p = t.dropWhile p ++ r := by
  rw [List.dropWhile_append, dropWhile_of_head? hr]
  split
  · rename_i h
    rw [List.isEmpty_iff.1 h, List.nil_append]
  · rfl

theorem takeWhile_append_of_isBreak (hp : ∀ c ∈ breaks, p c = false) (hr : IsBreak r) (t : Text) :
    (t ++ r).takeWhile p = t.takeWhile p :=
  takeWhile_append_of_head? (fun c hc => hp c (hr.mem_breaks c hc)) t

theorem dropWhile_append_of_isBreak (hp : ∀ c ∈ breaks, p c = false) (hr : IsBreak r) (t : Text) :
    (t ++ r).dropWhile p = t.dropWhile p ++ r :=
  dropWhile_append_of_head? (fun c hc => hp c (hr.mem_breaks c hc)) t

/-- White space is looked up in its ranges, of which none has more than eleven characters. -/
theorem of_isBlank {P : Char → Prop} (hranges : ∀ range ∈ blankRanges, ∀ k < 11,
    k ≤ range.2 - range.1 → P (Char.ofNat (range.1 + k))) {c : Char} (h : isBlank c = true) :
    P c := by
  have hshort : ∀ range ∈ blankRanges, range.2 - range.1 < 11 := by decide
  simp only [isBlank, inRanges, List.any_eq_true, Bool.and_eq_true, decide_eq_true_eq] at h
  obtain ⟨range, hmem, hfirst, hlast⟩ := h
  have hle : c.toNat - range.1 ≤ range.2 - range.1 := by omega
  have h := hranges range hmem (c.toNat - range.1) (Nat.lt_of_le_of_lt hle (hshort range hmem)) hle
  rwa [Nat.add_sub_cancel' hfirst, Char.ofNat_toNat] at h

theorem isLetter_of_isBlank {c : Char} (h : isBlank c = true) : isLetter c = false := by
  have hranges : ∀ range ∈ blankRanges, ∀ k < 11, k ≤ range.2 - range.1 →
      isLetter (Char.ofNat (range.1 + k)) = false := by decide +kernel
  exact of_isBlank (P := fun c => isLetter c = false) hranges h

end QuantityCalc.Text
