import QuantityCalc.Proofs.Run.Genuine
import QuantityCalc.Proofs.Text.Forward

/-!
# Reading declarations

Every part of the heading of a function takes something from the text (`Draft.meets_step`). So the
reading of a line comes to an end, the errors are genuine, and the text behind a finished function
is a proper end of the line (`Draft.meets_feed`).
-/

namespace QuantityCalc

theorem Lexeme.genuine_of_next {m : Manner} {c d : Cursor} {e : Error}
    (h : next m c = (.error e, d)) : e.Genuine := by
  rw [next_eq] at h
  simp only at h
  split at h
  · cases h
  · split at h
    · cases h
    · split at h
      · cases h
        exact nofun
      · cases h

theorem Lexeme.scan?_of_next {m : Manner} {c d : Cursor} {l : Lexeme}
    (h : next m c = (.ok (some l), d)) :
    scan? m.decimalComma (Text.trimStart c.rest) = some (l, d.rest) := by
  rw [next_eq] at h
  simp only [Cursor.rest_skipBlanks] at h
  split at h
  · rename_i hscan
    cases h
    exact hscan
  · split at h
    · cases h
    · split at h <;> cases h

theorem Lexeme.isBehind_of_next {m : Manner} {c d : Cursor} {l : Lexeme}
    (h : next m c = (.ok (some l), d)) : d.rest.IsBehind c.rest :=
  (isBehind_of_scan? (scan?_of_next h)).trans_suffix (Text.trimStart_suffix c.rest)

namespace Draft

variable {c d : Cursor}

theorem meets_parameter {r : Except Error Parameter} (h : parameter c = (r, d)) :
    Meets (fun _ => d.rest.IsBehind c.rest) r := by
  unfold parameter at h
  split at h
  · rename_i hnext
    cases h
    exact Lexeme.genuine_of_next hnext
  · rename_i word c' hnext
    have hblanks := (Lexeme.isBehind_of_next hnext).of_suffix (Text.trimStart_suffix c'.rest)
    simp only at h
    split at h
    · cases h
      exact hblanks
    · rename_i c'' heat
      have hbracket := hblanks.of_suffix (Cursor.suffix_of_eat? heat)
      split at h
      · cases h
        exact nofun
      · rename_i inside rest hcut
        split at h
        · cases h
          exact hbracket.of_suffix (Text.isBehind_of_cut? hcut).suffix
        · cases h
          exact nofun
  · cases h
    exact nofun

theorem meets_addParameter {name : String} {parameters : List Parameter} {r : Except Error Draft}
    (h : addParameter name parameters c = (r, d)) :
    Meets (fun _ => d.rest.IsBehind c.rest) r := by
  unfold addParameter at h
  split at h
  · rename_i hparameter
    cases h
    exact meets_parameter hparameter
  · rename_i p c' hparameter
    have hmeets := meets_parameter hparameter
    split at h
    · cases h
      exact nofun
    · cases h
      exact hmeets

theorem meets_keyword {r : Except Error Draft} (h : keyword c = (r, d)) :
    Meets (fun _ => d.rest.IsBehind c.rest) r := by
  unfold keyword at h
  split at h
  · rename_i hnext
    cases h
    exact Lexeme.genuine_of_next hnext
  · rename_i word c' hnext
    have hblanks := (Lexeme.isBehind_of_next hnext).of_suffix (Text.trimStart_suffix c'.rest)
    simp only at h
    split at h
    · split at h
      · rename_i name rest hscan
        cases h
        exact hblanks.of_suffix (Name.isBehind_of_scan? hscan).suffix
      · cases h
        exact nofun
    · cases h
      exact nofun
  · cases h
    exact nofun

/-- **Every part of a heading takes something from the text.** -/
theorem meets_step {draft : Draft} {r : Except Error Draft}
    (hheading : ∀ name parameters body depth, draft ≠ .inBody name parameters body depth)
    (h : step draft c = (r, d)) : Meets (fun _ => d.rest.IsBehind c.rest) r := by
  cases draft with
  | idle => exact meets_keyword h
  | named name =>
    simp only [step] at h
    split at h
    · rename_i heat
      cases h
      exact Cursor.isBehind_of_eat? heat (List.cons_ne_nil _ _)
    · cases h
      exact nofun
  | listed name =>
    simp only [step] at h
    split at h
    · rename_i heat
      cases h
      exact Cursor.isBehind_of_eat? heat (List.cons_ne_nil _ _)
    · exact meets_addParameter h
  | awaiting name parameters => exact meets_addParameter h
  | separated name parameters =>
    simp only [step] at h
    split at h
    · rename_i heat
      cases h
      exact Cursor.isBehind_of_eat? heat (List.cons_ne_nil _ _)
    · rename_i heat
      cases h
      exact Cursor.isBehind_of_eat? heat (List.cons_ne_nil _ _)
    · cases h
      exact nofun
  | headed name parameters =>
    simp only [step] at h
    split at h
    · rename_i heat
      cases h
      exact Cursor.isBehind_of_eat? heat (List.cons_ne_nil _ _)
    · cases h
      exact nofun
  | inBody name parameters body depth => exact absurd rfl (hheading name parameters body depth)

theorem isBehind_of_splitBody {t before after : Text} {depth : Nat}
    (h : splitBody depth t = .inr (before, after)) : after.IsBehind t := by
  induction t generalizing depth before with
  | nil => cases h
  | cons x t ih =>
    have htail := Text.IsBehind.tail x t
    simp only [splitBody] at h
    split at h
    · cases h
    · split at h
      · cases h
        exact htail
      · split at h
        · cases h
        · rename_i hsplit
          cases h
          exact htail.of_suffix (ih hsplit).suffix

theorem readOn_of_over {draft : Draft} (h : isOver (Text.trimStart c.rest) = true) :
    draft.readOn c = (⟨.ok none, []⟩, draft) := by
  unfold readOn
  exact if_pos h

theorem readOn_inBody {name : String} {parameters : List Parameter} {body : List String}
    {depth : Nat} (h : isOver (Text.trimStart c.rest) = false) :
    (inBody name parameters body depth).readOn c =
      match readBody name parameters body depth (Text.trimStart c.rest) with
      | (f?, draft, rest) => (⟨.ok f?, rest⟩, draft) := by
  have h' : ¬isOver c.skipBlanks.rest = true := by simpa using h
  unfold readOn
  exact if_neg h'

theorem readOn_heading {draft : Draft} (h : isOver (Text.trimStart c.rest) = false)
    (hheading : ∀ name parameters body depth, draft ≠ .inBody name parameters body depth) :
    draft.readOn c =
      match step draft c.skipBlanks with
      | (.error e, d) => (⟨.error e, d.rest⟩, idle)
      | (.ok next, d) => next.readOn d := by
  have h' : ¬isOver c.skipBlanks.rest = true := by simpa using h
  rw [readOn]
  · simp only [if_neg h']
    rcases hstep : step draft c.skipBlanks with ⟨e | next, d⟩
    · rfl
    · have hlt := (meets_step hheading hstep).length_lt
      exact if_pos hlt
  · exact hheading

/-- **How a line is read**: it is over, it belongs to a body, or the next part of a heading is read
and then what is behind it. -/
theorem readOn_induction {P : Draft → Cursor → Parsed (Option UserFunction) × Draft → Prop}
    (ended : ∀ {draft c}, isOver (Text.trimStart c.rest) = true → P draft c (⟨.ok none, []⟩, draft))
    (body : ∀ {name parameters body depth c f? next rest},
      isOver (Text.trimStart c.rest) = false →
      readBody name parameters body depth (Text.trimStart c.rest) = (f?, next, rest) →
      P (.inBody name parameters body depth) c (⟨.ok f?, rest⟩, next))
    (refused : ∀ {draft c e d}, isOver (Text.trimStart c.rest) = false →
      (∀ name parameters body depth, draft ≠ .inBody name parameters body depth) →
      step draft c.skipBlanks = (.error e, d) → P draft c (⟨.error e, d.rest⟩, idle))
    (part : ∀ {draft c next d}, isOver (Text.trimStart c.rest) = false →
      (∀ name parameters body depth, draft ≠ .inBody name parameters body depth) →
      step draft c.skipBlanks = (.ok next, d) → P next d (next.readOn d) →
      P draft c (next.readOn d))
    (draft : Draft) (c : Cursor) : P draft c (draft.readOn c) := by
  induction hn : c.rest.length using Nat.strongRecOn generalizing draft c with
  | ind n ih =>
    cases hover : isOver (Text.trimStart c.rest) with
    | true =>
      rw [readOn_of_over hover]
      exact ended hover
    | false =>
      by_cases hbody : ∃ name parameters body depth, draft = .inBody name parameters body depth
      · obtain ⟨name, parameters, lines, depth, rfl⟩ := hbody
        rw [readOn_inBody hover]
        exact body hover rfl
      · have hheading (name : String) (parameters : List Parameter) (body : List String)
            (depth : Nat) : draft ≠ .inBody name parameters body depth :=
          fun heq => hbody ⟨name, parameters, body, depth, heq⟩
        rw [readOn_heading hover hheading]
        rcases hstep : step draft c.skipBlanks with ⟨e | next, d⟩
        · exact refused hover hheading hstep
        · have hbehind := (meets_step hheading hstep).trans_suffix (Text.trimStart_suffix c.rest)
          exact part hover hheading hstep (ih d.rest.length (hn ▸ hbehind.length_lt) next d rfl)

theorem meets_readOn (draft : Draft) (c : Cursor) :
    Meets (fun f? => f?.isSome = true → (draft.readOn c).1.rest.IsBehind c.rest)
      (draft.readOn c).1.value := by
  induction draft, c using readOn_induction with
  | ended _ => exact nofun
  | body _ hread =>
    intro hsome
    unfold readBody at hread
    split at hread
    · cases hread
      cases hsome
    · rename_i hsplit
      cases hread
      exact (isBehind_of_splitBody hsplit).trans_suffix (Text.trimStart_suffix _)
  | refused _ hheading hstep => exact meets_step hheading hstep
  | part _ hheading hstep ih =>
    have hbehind := (meets_step hheading hstep).trans_suffix (Text.trimStart_suffix _)
    exact ih.mono fun f? hf hsome => hbehind.of_suffix (hf hsome).suffix

/-- **Reading a line of a declaration** leaves less of it, if the function is finished. -/
theorem meets_feed (draft : Draft) (t : Text) :
    Meets (fun f? => f?.isSome = true → (draft.feed t).1.rest.IsBehind t)
      (draft.feed t).1.value :=
  meets_readOn draft (.start t)

/-! ## Declarations that go on -/

theorem isOpen_of_addParameter {name : String} {parameters : List Parameter} {next : Draft}
    (h : addParameter name parameters c = (.ok next, d)) : next.isOpen = true := by
  unfold addParameter at h
  split at h
  · cases h
  · split at h
    · cases h
    · cases h
      rfl

theorem isOpen_of_keyword {next : Draft} (h : keyword c = (.ok next, d)) :
    next.isOpen = true := by
  unfold keyword at h
  split at h
  · cases h
  · split at h
    · simp only at h
      split at h
      · cases h
        rfl
      · cases h
    · cases h
  · cases h

theorem isOpen_of_step {draft next : Draft} (h : step draft c = (.ok next, d)) :
    next.isOpen = true := by
  cases draft with
  | idle => exact isOpen_of_keyword h
  | named name =>
    simp only [step] at h
    split at h <;> cases h
    rfl
  | listed name =>
    simp only [step] at h
    split at h
    · cases h
      rfl
    · exact isOpen_of_addParameter h
  | awaiting name parameters => exact isOpen_of_addParameter h
  | separated name parameters =>
    simp only [step] at h
    split at h <;> cases h <;> rfl
  | headed name parameters =>
    simp only [step] at h
    split at h <;> cases h
    rfl
  | inBody name parameters body depth =>
    cases h
    rfl

theorem isOpen_of_readOn (draft : Draft) (c : Cursor)
    (hbegun : draft.isOpen = true ∨ isOver (Text.trimStart c.rest) = false)
    (h : (draft.readOn c).1.value = .ok none) : (draft.readOn c).2.isOpen = true := by
  induction draft, c using readOn_induction with
  | ended hover => exact hbegun.resolve_right fun hfalse => by cases hover.symm.trans hfalse
  | body _ hread =>
    unfold readBody at hread
    split at hread
    · cases hread
      rfl
    · cases hread
      cases h
  | refused => cases h
  | part _ _ hstep ih => exact ih (.inl (isOpen_of_step hstep)) h

/-- **A declaration that has begun goes on** on the next line, if no function is finished. -/
theorem isOpen_of_feed {draft draft' : Draft} {t rest : Text}
    (hbegun : draft.isOpen = true ∨ isOver (Text.trimStart t) = false)
    (h : draft.feed t = (⟨.ok none, rest⟩, draft')) : draft'.isOpen = true := by
  have hopen := isOpen_of_readOn draft (.start t) hbegun
  rw [← feed, h] at hopen
  exact hopen rfl

/-! ## Declarations that end -/

theorem eq_idle_of_readOn (draft : Draft) (c : Cursor)
    (h : (draft.readOn c).1.value ≠ .ok none) : (draft.readOn c).2 = .idle := by
  induction draft, c using readOn_induction with
  | ended => exact absurd rfl h
  | body _ hread =>
    unfold readBody at hread
    split at hread
    · cases hread
      exact absurd rfl h
    · cases hread
      rfl
  | refused => rfl
  | part _ _ _ ih => exact ih h

/-- **A declaration ends** when its function is finished, and when an error is met. -/
theorem eq_idle_of_feed {draft draft' : Draft} {t rest : Text}
    {value : Except Error (Option UserFunction)} (h : draft.feed t = (⟨value, rest⟩, draft'))
    (hvalue : value ≠ .ok none) : draft' = .idle := by
  have hidle := eq_idle_of_readOn draft (.start t)
  rw [← feed, h] at hidle
  exact hidle hvalue

end Draft

end QuantityCalc
