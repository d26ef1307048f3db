import QuantityCalc.Proofs.Text.Break
import Mathlib.Data.List.DropRight
import Mathlib.Data.List.TakeWhile

/-!
# Trimmed texts

A text without white space at its ends stays as it is when it is trimmed (`trim_trim`), and so does
one without any white space (`trim_of_forall`). A front of a text that starts with no white space
does not start with any either (`trimStart_of_front`).
-/

namespace QuantityCalc.Text

variable {t u : Text}

theorem trimStart_trimStart (t : Text) : trimStart (trimStart t) = trimStart t :=
  List.dropWhile_idempotent isBlank t

theorem trimStart_of_head? (h : ∀ c ∈ t.head?, isBlank c = false) : trimStart t = t :=
  dropWhile_of_head? h

theorem isBlank_of_head?_trimStart (h : trimStart t = t) : ∀ c ∈ t.head?, isBlank c = false := by
  match t with
  | [] => nofun
  | c :: t =>
    rintro d ⟨⟩
    by_contra hblank
    rw [Bool.not_eq_false] at hblank
    rw [trimStart, List.dropWhile_cons_of_pos hblank] at h
    have hle := (trimStart_suffix t).length_le
    rw [trimStart, h, List.length_cons] at hle
    omega

/-- A front of a text starts as the text does. -/
theorem trimStart_of_front (hfront : u <+: t) (h : trimStart t = t) : trimStart u = u := by
  refine trimStart_of_head? fun c hc => isBlank_of_head?_trimStart h c ?_
  obtain ⟨rest, rfl⟩ := hfront
  rw [List.head?_append, hc]
  rfl

theorem trimEnd_front (t : Text) : trimEnd t <+: t := List.rdropWhile_prefix isBlank t

theorem trimEnd_trimEnd (t : Text) : trimEnd (trimEnd t) = trimEnd t :=
  List.rdropWhile_idempotent isBlank t

theorem trimStart_trim (t : Text) : trimStart (trim t) = trim t :=
  trimStart_of_front (trimEnd_front _) (trimStart_trimStart t)

theorem trim_trimStart (t : Text) : trim (trimStart t) = trim t := by
  rw [trim, trim, trimStart_trimStart]

theorem trim_trim (t : Text) : trim (trim t) = trim t := by
  rw [trim, trimStart_trim, trim, trimEnd_trimEnd]

theorem trim_of_trimStart (h : trimStart t = t) : trim t = trimEnd t := by rw [trim, h]

theorem mem_of_mem_trim {c : Char} (h : c ∈ trim t) : c ∈ t :=
  (trimStart_suffix t).subset ((trimEnd_front _).subset h)

theorem trim_of_forall (h : ∀ c ∈ t, isBlank c = false) : trim t = t := by
  rw [trim, trimStart_of_head? fun c hc => h c (List.mem_of_mem_head? hc)]
  refine List.rdropWhile_eq_self_iff.2 fun hne => ?_
  simp [h _ (List.getLast_mem hne)]

theorem isBlank_of_isDigit {c : Char} (h : c.isDigit = true) : isBlank c = false := by
  have hdigits : ∀ n < 58, 48 ≤ n → isBlank (Char.ofNat n) = false := by decide
  simp only [Char.isDigit, Bool.and_eq_true, decide_eq_true_eq] at h
  rw [← Char.ofNat_toNat c]
  exact hdigits _ (Nat.lt_succ_of_le h.2) h.1

/-- Only white space is dropped at the end. -/
theorem eq_trimEnd_append (t : Text) :
    ∃ blanks, t = trimEnd t ++ blanks ∧ ∀ c ∈ blanks, isBlank c = true :=
  ⟨t.rtakeWhile isBlank, List.rdropWhile_append_rtakeWhile.symm,
    fun _ => List.mem_rtakeWhile_imp⟩

end QuantityCalc.Text
