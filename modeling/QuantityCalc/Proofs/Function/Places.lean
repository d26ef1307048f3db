import QuantityCalc.Proofs.Expression.Located
import QuantityCalc.Proofs.Function.Draft
import QuantityCalc.Proofs.Text.Trim

/-!
# Where a declaration is wrong

The parts of a heading are read at places of the line (`Draft.locates_step`). So the error of a
declaration is located in the line that is read, whatever was read before (`Draft.locates_feed`).
-/

namespace QuantityCalc

variable {α : Type} {t : Text} {c d : Cursor}

/-- What a part of a text leads to: a place in the text, and a value or a located error. -/
def LeadsIn (t : Text) (r : Except Error α) (d : Cursor) : Prop :=
  d.In t ∧ Locates True t (fun _ => True) r

namespace LeadsIn

theorem ok (hd : d.In t) (a : α) : LeadsIn t (.ok a) d := ⟨hd, trivial⟩

theorem faultAt (hc : c.In t) (hd : d.In t) (what : Malformation) :
    LeadsIn t (.error (Draft.faultAt c what) : Except Error α) d :=
  ⟨hd, c.rest, hc⟩

end LeadsIn

/-- A character that starts no lexeme is reported where it stands. -/
theorem Lexeme.locates_next {m : Manner} {r : Except Error (Option Lexeme)} (hc : c.In t)
    (h : next m c = (r, d)) : LeadsIn t r d := by
  have hblanks := hc.skipBlanks
  rw [next_eq] at h
  dsimp only at h
  split at h
  · rename_i l rest hscan
    cases h
    exact .ok (hblanks.moveTo (isBehind_of_scan? hscan).suffix) _
  · split at h
    · cases h
      exact .ok hblanks _
    · rename_i found rest hrest
      split at h
      · cases h
        exact ⟨hblanks, rest, hrest ▸ hblanks⟩
      · cases h
        exact .ok hblanks _

theorem UnitExpr.parse_of_validate_error {e : UnitError} (h : validate t = .error e) :
    parse t = .error e := by
  unfold validate at h
  cases hparse : parse t with
  | ok u =>
    rw [hparse] at h
    cases h
  | error e' =>
    rw [hparse] at h
    cases h
    rfl

namespace Draft

theorem locates_parameter {r : Except Error Parameter} (hc : c.In t) (h : parameter c = (r, d)) :
    LeadsIn t r d := by
  unfold parameter at h
  split at h
  · rename_i hnext
    cases h
    exact Lexeme.locates_next hc hnext
  · rename_i word c' hnext
    have hblanks := (Lexeme.locates_next hc hnext).1.skipBlanks
    dsimp only at h
    split at h
    · cases h
      exact .ok hblanks _
    · rename_i c'' heat
      have hbracket := hblanks.eat? heat
      split at h
      · cases h
        exact .faultAt hbracket hbracket _
      · rename_i inside rest hcut
        split at h
        · cases h
          exact .ok (hbracket.moveTo (Text.isBehind_of_cut? hcut).suffix) _
        · rename_i e hvalid
          cases h
          refine ⟨hbracket, ?_⟩
          cases e with
          | malformed position fault =>
            -- the unit stands between the brackets, and white space around it is left out
            obtain ⟨rest', hrest'⟩ :=
              UnitExpr.locatedIn_of_parse (UnitExpr.parse_of_validate_error hvalid)
            have hopen : c'.skipBlanks.rest = '[' :: (inside ++ ']' :: rest) := by
              rw [Cursor.eq_append_of_eat? heat, (Text.eq_append_of_cut? hcut).1]
              rfl
            rw [Cursor.In, hopen] at hblanks
            exact fun _ =>
              ⟨_, inside, rest, rest', hblanks, Text.trim_trim inside ▸ hrest'⟩
          | _ => exact fun _ => trivial
  · rename_i hnext
    cases h
    exact .faultAt hc (Lexeme.locates_next hc hnext).1 _

theorem locates_addParameter {name : String} {parameters : List Parameter}
    {r : Except Error Draft} (hc : c.In t) (h : addParameter name parameters c = (r, d)) :
    LeadsIn t r d := by
  unfold addParameter at h
  split at h
  · rename_i hparameter
    cases h
    exact locates_parameter hc hparameter
  · rename_i p c' hparameter
    have hplace := (locates_parameter hc hparameter).1
    split at h
    · cases h
      exact ⟨hplace, trivial⟩
    · cases h
      exact .ok hplace _

theorem locates_keyword {r : Except Error Draft} (hc : c.In t) (h : keyword c = (r, d)) :
    LeadsIn t r d := by
  unfold keyword at h
  split at h
  · rename_i hnext
    cases h
    exact Lexeme.locates_next hc hnext
  · rename_i word c' hnext
    have hword := (Lexeme.locates_next hc hnext).1
    dsimp only at h
    split at h
    · split at h
      · rename_i name rest hscan
        cases h
        exact .ok (hword.skipBlanks.moveTo (Name.isBehind_of_scan? hscan).suffix) _
      · cases h
        exact .faultAt hword.skipBlanks hword.skipBlanks _
    · cases h
      exact .faultAt hc hword _
  · rename_i hnext
    cases h
    exact .faultAt hc (Lexeme.locates_next hc hnext).1 _

/-- **A part of a heading leads to a place of the text**, and its error is located there. -/
theorem locates_step {draft : Draft} {r : Except Error Draft} (hc : c.In t)
    (h : step draft c = (r, d)) : LeadsIn t r d := by
  cases draft with
  | idle => exact locates_keyword hc h
  | named name =>
    simp only [step] at h
    split at h
    · rename_i heat
      cases h
      exact .ok (hc.eat? heat) _
    · cases h
      exact .faultAt hc hc _
  | listed name =>
    simp only [step] at h
    split at h
    · rename_i heat
      cases h
      exact .ok (hc.eat? heat) _
    · exact locates_addParameter hc h
  | awaiting name parameters => exact locates_addParameter hc h
  | separated name parameters =>
    simp only [step] at h
    split at h
    · rename_i heat
      cases h
      exact .ok (hc.eat? heat) _
    · rename_i heat
      cases h
      exact .ok (hc.eat? heat) _
    · cases h
      exact .faultAt hc hc _
  | headed name parameters =>
    simp only [step] at h
    split at h
    · rename_i heat
      cases h
      exact .ok (hc.eat? heat) _
    · cases h
      exact .faultAt hc hc _
  | inBody name parameters body depth =>
    cases h
    exact .ok hc _

theorem locates_readOn (draft : Draft) (hc : c.In t) :
    Locates True t (fun _ => True) (draft.readOn c).1.value := by
  induction draft, c using readOn_induction with
  | ended => trivial
  | body => trivial
  | refused _ _ hstep => exact (locates_step hc.skipBlanks hstep).2
  | part _ _ hstep ih => exact ih (locates_step hc.skipBlanks hstep).1

/-- **The error of a declaration is located in the line that is read.** -/
theorem locates_feed (draft : Draft) (t : Text) :
    Locates True t (fun _ => True) (draft.feed t).1.value :=
  locates_readOn draft (Cursor.in_start t)

end Draft

end QuantityCalc
