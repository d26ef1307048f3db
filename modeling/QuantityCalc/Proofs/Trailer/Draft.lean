import QuantityCalc.Proofs.Function.Draft
import QuantityCalc.Proofs.Trailer.Expressions

/-!
# Declarations in front of a trailer

A declaration that is finished on a line is finished there in front of a trailer too, and what is
left behind its closing brace has the trailer at its end (`Draft.feed_append`).
-/

namespace QuantityCalc

open Text

variable {r t t' : Text} {c c' d : Cursor}

theorem Lexeme.next_of_trails (hr : IsTrailer r) (h : Trails r c.rest c'.rest) {m : Manner}
    {l : Lexeme} (hm : next m c = (.ok (some l), d)) :
    ∃ d', next m c' = (.ok (some l), d') ∧ d'.rest = d.rest ++ r := by
  have hscan := scan?_of_next hm
  rcases h.cases with ⟨hnil, -⟩ | ⟨x, u, ht, ht'⟩
  · rw [hnil] at hscan
    cases hscan
  · rw [ht] at hscan
    have hscan' := scan?_append hr.isBreak m.decimalComma (List.cons_ne_nil x u)
    rw [hscan, List.cons_append] at hscan'
    refine ⟨c'.skipBlanks.moveTo (d.rest ++ r), ?_, rfl⟩
    simp only [next_eq, Cursor.rest_skipBlanks, ht', hscan', Option.map_some]

namespace Draft

theorem parameter_of_trails (hr : IsTrailer r) (h : Trails r c.rest c'.rest) {p : Parameter}
    (hm : parameter c = (.ok p, d)) :
    ∃ d', parameter c' = (.ok p, d') ∧ Trails r d.rest d'.rest := by
  unfold parameter at hm
  split at hm
  · cases hm
  · rename_i word e hnext
    obtain ⟨e', hnext', he⟩ := Lexeme.next_of_trails hr h hnext
    simp only [parameter, hnext']
    simp only at hm
    rcases Cursor.eat?_of_trails (.of_eq he) (hr.head?_ne (x := '[') (by decide)) with
      ⟨heat, heat'⟩ | ⟨b, b', heat, heat', hb⟩
    · rw [heat] at hm
      cases hm
      rw [heat']
      exact ⟨_, rfl, (Trails.of_eq he).trimmed⟩
    · rw [heat] at hm
      rw [heat']
      simp only at hm ⊢
      rw [hb]
      cases hcut : cut? ']' b.rest with
      | none =>
        rw [hcut] at hm
        cases hm
      | some x =>
        obtain ⟨inside, behind⟩ := x
        rw [hcut] at hm
        rw [cut?_append hcut]
        simp only at hm ⊢
        split at hm
        · cases hm
          exact ⟨_, rfl, .append behind r⟩
        · cases hm
  · cases hm

theorem addParameter_of_trails (hr : IsTrailer r) (h : Trails r c.rest c'.rest) {name : String}
    {parameters : List Parameter} {next : Draft}
    (hm : addParameter name parameters c = (.ok next, d)) :
    ∃ d', addParameter name parameters c' = (.ok next, d') ∧ Trails r d.rest d'.rest := by
  unfold addParameter at hm
  split at hm
  · cases hm
  · rename_i p e hparameter
    obtain ⟨e', hparameter', he⟩ := parameter_of_trails hr h hparameter
    simp only [addParameter, hparameter']
    split at hm
    · cases hm
    · rename_i hnew
      cases hm
      rw [if_neg hnew]
      exact ⟨e', rfl, he⟩

theorem keyword_of_trails (hr : IsTrailer r) (h : Trails r c.rest c'.rest) {next : Draft}
    (hm : keyword c = (.ok next, d)) :
    ∃ d', keyword c' = (.ok next, d') ∧ Trails r d.rest d'.rest := by
  unfold keyword at hm
  split at hm
  · cases hm
  · rename_i word e hnext
    obtain ⟨e', hnext', he⟩ := Lexeme.next_of_trails hr h hnext
    simp only [keyword, hnext']
    split at hm
    · rename_i hfunc
      rw [if_pos hfunc]
      have hscan' := (Trails.of_eq he).scan? (.trailer hr)
      simp only [Cursor.rest_skipBlanks] at hm ⊢
      cases hscan : Name.scan? (trimStart e.rest) with
      | none =>
        rw [hscan] at hm
        cases hm
      | some x =>
        obtain ⟨name, behind⟩ := x
        rw [hscan] at hm hscan'
        rw [hscan']
        cases hm
        exact ⟨_, rfl, .append behind r⟩
    · cases hm
  · cases hm

/-- **A part of a heading is read in front of a trailer as without it.** -/
theorem step_of_trails (hr : IsTrailer r) (h : Trails r c.rest c'.rest) {draft next : Draft}
    (hheading : ∀ name parameters body depth, draft ≠ .inBody name parameters body depth)
    (hm : step draft c.skipBlanks = (.ok next, d)) :
    ∃ d', step draft c'.skipBlanks = (.ok next, d') ∧ Trails r d.rest d'.rest := by
  have hskip : Trails r c.skipBlanks.rest c'.skipBlanks.rest := h.trimmed
  cases draft with
  | idle => exact keyword_of_trails hr hskip hm
  | named name =>
    simp only [step] at hm ⊢
    rcases Cursor.eat?_of_trails h (hr.head?_ne (x := '(') (by decide)) with
      ⟨heat, -⟩ | ⟨b, b', heat, heat', hb⟩
    · rw [heat] at hm
      cases hm
    · rw [heat] at hm
      cases hm
      rw [heat']
      exact ⟨b', rfl, .of_eq hb⟩
  | listed name =>
    simp only [step] at hm ⊢
    rcases Cursor.eat?_of_trails h (hr.head?_ne (x := ')') (by decide)) with
      ⟨heat, heat'⟩ | ⟨b, b', heat, heat', hb⟩
    · rw [heat] at hm
      rw [heat']
      exact addParameter_of_trails hr hskip hm
    · rw [heat] at hm
      cases hm
      rw [heat']
      exact ⟨b', rfl, .of_eq hb⟩
  | awaiting name parameters => exact addParameter_of_trails hr hskip hm
  | separated name parameters =>
    simp only [step] at hm ⊢
    rcases Cursor.eat?_of_trails h (hr.head?_ne (x := ',') (by decide)) with
      ⟨hcomma, hcomma'⟩ | ⟨b, b', heat, heat', hb⟩
    · rcases Cursor.eat?_of_trails h (hr.head?_ne (x := ')') (by decide)) with
        ⟨heat, -⟩ | ⟨b, b', heat, heat', hb⟩
      · rw [hcomma, heat] at hm
        cases hm
      · rw [hcomma, heat] at hm
        cases hm
        rw [hcomma', heat']
        exact ⟨b', rfl, .of_eq hb⟩
    · rw [heat] at hm
      cases hm
      rw [heat']
      exact ⟨b', rfl, .of_eq hb⟩
  | headed name parameters =>
    simp only [step] at hm ⊢
    rcases Cursor.eat?_of_trails h (hr.head?_ne (x := '{') (by decide)) with
      ⟨heat, -⟩ | ⟨b, b', heat, heat', hb⟩
    · rw [heat] at hm
      cases hm
    · rw [heat] at hm
      cases hm
      rw [heat']
      exact ⟨b', rfl, .of_eq hb⟩
  | inBody name parameters body depth => exact absurd rfl (hheading name parameters body depth)

theorem splitBody_append (hr : IsTrailer r) {depth : Nat} {before after : Text}
    (h : splitBody depth t = .inr (before, after)) :
    splitBody depth (t ++ r) = .inr (before, after ++ r) := by
  induction t generalizing depth before with
  | nil => cases h
  | cons x t ih =>
    rw [List.cons_append]
    simp only [splitBody] at h ⊢
    rw [← List.cons_append, isPrefixOf_commentMark_append hr.isBreak]
    split at h
    · cases h
    · rename_i hcomment
      rw [if_neg hcomment]
      split at h
      · rename_i hclose
        rw [if_pos hclose]
        cases h
        rfl
      · rename_i hclose
        rw [if_neg hclose]
        split at h
        · cases h
        · rename_i hsplit
          cases h
          rw [ih hsplit]

/-- A line that is not over is not over in front of a trailer either. -/
theorem eq_cons_of_not_over (hr : IsTrailer r) (h : Trails r t t')
    (hover : isOver (trimStart t) = false) :
    ∃ x u, trimStart t = x :: u ∧ trimStart t' = x :: u ++ r ∧ isOver (trimStart t') = false := by
  rcases h.cases with ⟨hnil, -⟩ | ⟨x, u, ht, ht'⟩
  · rw [hnil] at hover
    cases hover
  · rw [ht] at hover
    refine ⟨x, u, ht, ht', ?_⟩
    rw [ht']
    exact (isOver_append_of_cons hr.isBreak x u).trans hover

theorem readOn_of_trails (hr : IsTrailer r) (h : Trails r c.rest c'.rest) {draft draft' : Draft}
    {f : UserFunction} {rest : Text} (hm : draft.readOn c = (⟨.ok (some f), rest⟩, draft')) :
    draft.readOn c' = (⟨.ok (some f), rest ++ r⟩, draft') := by
  induction draft, c using readOn_induction generalizing c' with
  | ended => cases hm
  | body hover hread =>
    obtain ⟨x, u, ht, ht', hover'⟩ := eq_cons_of_not_over hr h hover
    rw [readOn_inBody hover', ht']
    rw [ht] at hread
    unfold readBody at hread ⊢
    split at hread
    · cases hread
      cases hm
    · rename_i hsplit
      rw [splitBody_append hr hsplit]
      cases hread
      cases hm
      rfl
  | refused => cases hm
  | part hover hheading hstep ih =>
    obtain ⟨d', hstep', hd⟩ := step_of_trails hr h hheading hstep
    obtain ⟨-, -, -, -, hover'⟩ := eq_cons_of_not_over hr h hover
    rw [readOn_heading hover' hheading, hstep']
    exact ih hd hm

/-- **A function that is finished on a line is finished there in front of a trailer.** -/
theorem feed_append (hr : IsTrailer r) {draft draft' : Draft} {f : UserFunction} {rest : Text}
    (hm : draft.feed t = (⟨.ok (some f), rest⟩, draft')) :
    draft.feed (t ++ r) = (⟨.ok (some f), rest ++ r⟩, draft') := by
  have h : Trails r (Cursor.start t).rest (Cursor.start (t ++ r)).rest := .append t r
  exact readOn_of_trails hr h hm

end Draft

end QuantityCalc
