import QuantityCalc.Proofs.Text.Break
import Mathlib.Data.List.Basic
import Mathlib.Data.List.TakeWhile

/-!
# Runs of characters

A run is a sequence of characters of a kind that stands between characters of other kinds. A
boundary in a text may lie inside a run or not (`KeepsRuns`). A run of two texts, one behind the
other, is a run of one of them if the boundary between them is not inside a run (`HasRun.append`).
-/

namespace QuantityCalc.Text

variable {p : Char → Bool} {t u rest run : Text}

/-- Whether the boundary between two texts is not inside a run of characters of a kind. -/
def KeepsRuns (p : Char → Bool) (t rest : Text) : Prop :=
  ∀ c ∈ t.getLast?, p c = true → ∀ d ∈ rest.head?, p d = false

namespace KeepsRuns

theorem of_head? (h : ∀ d ∈ rest.head?, p d = false) : KeepsRuns p t rest := fun _ _ _ => h

theorem of_getLast? (h : ∀ c ∈ t.getLast?, p c = false) : KeepsRuns p t rest := by
  intro c hc hp
  rw [h c hc] at hp
  cases hp

/-- Whether a boundary is inside a run depends on the last character in front of it. -/
theorem append_left_iff (front : Text) (hne : t ≠ []) :
    KeepsRuns p (front ++ t) rest ↔ KeepsRuns p t rest := by
  rw [KeepsRuns, List.getLast?_append_of_ne_nil _ hne]
  rfl

/-- Behind a text that is a run, something else follows. -/
theorem head? (h : KeepsRuns p t rest) (hne : t ≠ []) (ht : ∀ c ∈ t, p c = true) :
    ∀ d ∈ rest.head?, p d = false :=
  h _ (List.getLast?_eq_some_getLast hne) (ht _ (List.getLast_mem hne))

/-- What follows does not add to the characters at the front of a text. -/
theorem takeWhile_append (h : KeepsRuns p t rest) (hne : t ≠ []) :
    (t ++ rest).takeWhile p = t.takeWhile p := by
  rw [List.takeWhile_append]
  split
  · rename_i hlength
    have ht : t.takeWhile p = t := (List.takeWhile_prefix p).eq_of_length hlength
    have hall : ∀ c ∈ t, p c = true := List.takeWhile_eq_self_iff.1 ht
    rw [ht, takeWhile_of_head? (h.head? hne hall), List.append_nil]
  · rfl

end KeepsRuns

theorem head?_dropWhile (p : Char → Bool) (t : Text) :
    ∀ c ∈ (t.dropWhile p).head?, p c = false := by
  intro c hc
  have h := List.head?_dropWhile_not p t
  rw [Option.mem_def.1 hc] at h
  exact h

/-- Whether a sequence of characters of a kind is a run of a text. -/
structure HasRun (p : Char → Bool) (t run : Text) : Prop where
  ne_nil : run ≠ []
  kind : ∀ c ∈ run, p c = true
  exists_append : ∃ front behind, t = front ++ run ++ behind ∧
    (∀ c ∈ front.getLast?, p c = false) ∧ ∀ c ∈ behind.head?, p c = false

namespace HasRun

theorem exists_mem (h : HasRun p t run) : ∃ c ∈ t, p c = true := by
  obtain ⟨front, behind, rfl, -⟩ := h.exists_append
  obtain ⟨c, hc⟩ := List.exists_mem_of_ne_nil _ h.ne_nil
  exact ⟨c, by simp [hc], h.kind c hc⟩

/-- A text of one kind has no other run than itself. -/
theorem eq_of_forall (h : HasRun p t run) (ht : ∀ c ∈ t, p c = true) : run = t := by
  obtain ⟨front, behind, rfl, hfront, hbehind⟩ := h.exists_append
  have hnone {c : Char} (hc : c ∈ front ++ run ++ behind) : p c ≠ false := by simp [ht c hc]
  have hfirst : front = [] := by
    cases hc : front.getLast? with
    | none => exact List.getLast?_eq_none_iff.1 hc
    | some c =>
      have hmem := List.mem_of_getLast? hc
      exact absurd (hfront c hc) (hnone (by simp [hmem]))
  have hlast : behind = [] := by
    cases hc : behind.head? with
    | none => exact List.head?_eq_none_iff.1 hc
    | some c =>
      have hmem := List.mem_of_mem_head? hc
      exact absurd (hbehind c hc) (hnone (by simp [hmem]))
  rw [hfirst, hlast, List.nil_append, List.append_nil]

/-- **A run of two texts is a run of one of them**, if the boundary is not inside a run. -/
theorem append (h : HasRun p (t ++ u) run) (hcut : KeepsRuns p t u) :
    HasRun p t run ∨ HasRun p u run := by
  obtain ⟨hne, hkind, front, behind, heq, hfront, hbehind⟩ := h
  rcases List.append_eq_append_iff.1 heq with ⟨mid, hmid, rfl⟩ | ⟨mid, rfl, rfl⟩
  · rcases List.append_eq_append_iff.1 hmid with ⟨cut, rfl, rfl⟩ | ⟨cut, rfl, rfl⟩
    · -- the run is what stands at the boundary, so it does not reach over it
      cases hc : cut.getLast? with
      | none =>
        rw [List.getLast?_eq_none_iff.1 hc, List.nil_append] at hne hkind ⊢
        exact Or.inr ⟨hne, hkind, [], behind, rfl, nofun, hbehind⟩
      | some c =>
        have hlast : (front ++ cut).getLast? = some c := by
          rw [List.getLast?_append, hc, Option.some_or]
        have hhead := hcut c hlast (hkind c (List.mem_append_left _ (List.mem_of_getLast? hc)))
        cases hd : mid.head? with
        | none =>
          rw [List.head?_eq_none_iff.1 hd, List.append_nil] at hne hkind ⊢
          exact Or.inl ⟨hne, hkind, front, [], (List.append_nil _).symm, hfront, nofun⟩
        | some d =>
          have hd' := hhead d (by rw [List.head?_append, hd, Option.some_or]; rfl)
          rw [hkind d (List.mem_append_right _ (List.mem_of_mem_head? hd))] at hd'
          cases hd'
    · refine Or.inr ⟨hne, hkind, cut, behind, rfl, fun c hc => hfront c ?_, hbehind⟩
      rw [List.getLast?_append, Option.mem_def.1 hc, Option.some_or]
      rfl
  · refine Or.inl ⟨hne, hkind, front, mid, rfl, hfront, fun c hc => hbehind c ?_⟩
    rw [List.head?_append, Option.mem_def.1 hc, Option.some_or]
    rfl

end HasRun

end QuantityCalc.Text
