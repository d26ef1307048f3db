import Mathlib.Tactic.SplitIfs

/-!
# The order of strings

Strings are ordered by the code points of their characters. It is the order of their bytes in UTF-8
(`toUTF8_lt_of_lt`), since the bytes of a greater character are greater, whatever follows them
(`encoded_lt_of_lt`).
-/

namespace QuantityCalc.Text

open String (utf8EncodeChar)

theorem encoded_lt_of_lt {c d : Char} (h : c < d) (s t : List UInt8) :
    utf8EncodeChar c ++ s < utf8EncodeChar d ++ t := by
  have hlt : c.val.toNat < d.val.toNat := h
  have hd : d.val.toNat < 1114112 := by
    rcases d.valid with hd | hd
    · exact Nat.lt_trans hd (by decide)
    · exact hd.2
  -- the bytes hold digits to the base 64, so divisions by higher powers are taken step by step
  have hsquare (n : Nat) : n / 4096 = n / 64 / 64 := by omega
  have hcube (n : Nat) : n / 262144 = n / 64 / 64 / 64 := by omega
  simp only [utf8EncodeChar, hsquare, hcube]
  generalize c.val.toNat = m at hlt ⊢
  generalize d.val.toNat = n at hlt hd ⊢
  split_ifs <;>
    simp only [List.cons_append, List.nil_append, List.cons_lt_cons_iff, UInt8.lt_iff_toNat_lt,
      ← UInt8.toNat_inj, UInt8.toNat_ofNat', Nat.reducePow] <;>
    omega

theorem flatMap_encoded_lt {s t : List Char} (h : s < t) :
    s.flatMap utf8EncodeChar < t.flatMap utf8EncodeChar := by
  induction h with
  | @nil c t =>
    rw [List.flatMap_nil, List.flatMap_cons]
    cases hc : utf8EncodeChar c with
    | nil => exact absurd hc String.utf8EncodeChar_ne_nil
    | cons b bs => exact List.nil_lt_cons b _
  | rel h => exact encoded_lt_of_lt h _ _
  | cons _ ih => exact List.append_left_lt ih

/-- **The order of strings is the order of their bytes.** -/
theorem toUTF8_lt_of_lt {a b : String} (h : a < b) :
    a.toUTF8.data.toList < b.toUTF8.data.toList := by
  have hbytes (s : String) : s.toUTF8.data.toList = s.toList.flatMap utf8EncodeChar := by
    rw [String.toUTF8_eq_toByteArray, ← String.utf8Encode_toList, List.utf8Encode,
      List.toList_data_toByteArray]
  rw [hbytes, hbytes]
  exact flatMap_encoded_lt (String.lt_iff.1 h)

end QuantityCalc.Text
