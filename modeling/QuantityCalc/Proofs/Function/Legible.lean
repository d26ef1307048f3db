import QuantityCalc.Proofs.Except
import QuantityCalc.Proofs.Function.Draft
import QuantityCalc.Proofs.Lexeme.Front
import QuantityCalc.Proofs.Text.Trim

/-!
# What drafts have read

What a draft has read of a declaration can be written down and read again: its names are names, its
units are units without brackets, its lines are trimmed, and the braces of its body are counted as
they were when it was read. `Draft.Legible` says so of a draft and `UserFunction.Legible` of a
finished function. Reading on keeps it (`Draft.legible_of_readOn`).
-/

namespace QuantityCalc

open Text

/-- Whether a unit in brackets is read as the same text. -/
structure IsUnitText (t : Text) : Prop where
  validate : UnitExpr.validate t = .ok ()
  trim : trim t = t
  notMem : ']' ∉ t

/-- Whether a parameter can be read from its text. -/
structure Parameter.Legible (p : Parameter) : Prop where
  name : Name.scan? p.name.toList = some (p.name.toList, [])
  unit : ∀ unit ∈ p.unit?, IsUnitText unit.toList

/-- Whether a heading with this name and these parameters can be read. -/
structure IsHeading (name : String) (parameters : List Parameter) : Prop where
  name : Name.scan? name.toList = some (name.toList, [])
  legible : ∀ p ∈ parameters, p.Legible
  nodup : (parameters.map Parameter.name).Nodup

/-- Whether a line of a body is read as the same line. -/
structure IsLine (line : String) : Prop where
  trim : trim line.toList = line.toList
  isOver : isOver line.toList = false

/-- The number of braces that are open behind lines, none if one of them ends the body. -/
def openBehind (depth : Nat) : List String → Option Nat
  | [] => some depth
  | line :: body =>
    match Draft.splitBody depth line.toList with
    | .inl depth => openBehind depth body
    | .inr _ => none

/-- Whether a body can be read up to its end, with so many braces open behind it. -/
structure IsBody (body : List String) (depth : Nat) : Prop where
  isLine : ∀ line ∈ body, IsLine line
  openBehind : openBehind 0 body = some depth

/-- Whether a function can be read from its lines. -/
structure UserFunction.Legible (f : UserFunction) : Prop where
  isHeading : IsHeading f.name f.parameters
  isBody : IsBody f.body 0

/-- Whether what a draft has read can be read again. -/
def Draft.Legible : Draft → Prop
  | idle => True
  | named name | listed name => IsHeading name []
  | awaiting name parameters | separated name parameters | headed name parameters =>
    IsHeading name parameters
  | inBody name parameters body depth => IsHeading name parameters ∧ IsBody body depth

theorem IsHeading.parameter {name : String} {before after : List Parameter} {p : Parameter}
    (h : IsHeading name (before ++ p :: after)) :
    p.Legible ∧ p.name ∉ before.map Parameter.name := by
  have hnodup := h.nodup
  rw [List.map_append, List.map_cons, List.nodup_append] at hnodup
  exact ⟨h.legible p (by simp), fun hmem => hnodup.2.2 p.name hmem p.name List.mem_cons_self rfl⟩

theorem openBehind_append (depth : Nat) (body body' : List String) :
    openBehind depth (body ++ body') = (openBehind depth body).bind (openBehind · body') := by
  induction body generalizing depth with
  | nil => rfl
  | cons line body ih =>
    rw [List.cons_append, openBehind, openBehind]
    split
    · exact ih _
    · rfl

namespace Draft

variable {t before after : Text} {c d : Cursor} {draft next : Draft} {depth n : Nat}

/-! ## Braces -/

theorem isPrefixOf_of_front {u : Text} (h : commentMark.isPrefixOf u = true) (hu : u <+: t) :
    commentMark.isPrefixOf t = true := by
  rw [List.isPrefixOf_iff_prefix] at h ⊢
  exact h.trans hu

theorem ne_of_isBlank {x : Char} (h : isBlank x = true) : x ≠ '/' ∧ x ≠ '{' ∧ x ≠ '}' := by
  refine ⟨?_, ?_, ?_⟩ <;> rintro rfl <;> exact absurd h (by decide)

/-- White space starts no comment. -/
theorem isPrefixOf_append_blanks {blanks : Text} (hblanks : ∀ x ∈ blanks, isBlank x = true)
    (t : Text) : commentMark.isPrefixOf (t ++ blanks) = commentMark.isPrefixOf t := by
  have hfirst : ∀ x ∈ blanks.head?, x ≠ '/' := fun x hx =>
    (ne_of_isBlank (hblanks x (List.mem_of_mem_head? hx))).1
  match t, blanks with
  | x :: y :: t, _ => simp [commentMark, List.isPrefixOf]
  | [], [] => rfl
  | [x], [] => rfl
  | [], b :: blanks => simp [commentMark, List.isPrefixOf, (hfirst b rfl).symm]
  | [x], b :: blanks => simp [commentMark, List.isPrefixOf, (hfirst b rfl).symm]

theorem splitBody_blanks {blanks : Text} (hblanks : ∀ x ∈ blanks, isBlank x = true) (depth : Nat) :
    splitBody depth blanks = .inl depth := by
  induction blanks with
  | nil => rfl
  | cons b blanks ih =>
    have hcomment := isPrefixOf_append_blanks hblanks []
    obtain ⟨-, hopen, hclose⟩ := ne_of_isBlank (hblanks b List.mem_cons_self)
    have ih := ih fun x hx => hblanks x (List.mem_cons_of_mem b hx)
    rw [List.nil_append] at hcomment
    rw [splitBody, hcomment]
    simp [commentMark, hopen, hclose, ih]

/-- White space behind a line does not change how its braces are counted. -/
theorem splitBody_of_append_blanks {blanks : Text} (hblanks : ∀ x ∈ blanks, isBlank x = true)
    (h : splitBody depth (t ++ blanks) = .inl n) : splitBody depth t = .inl n := by
  induction t generalizing depth with
  | nil =>
    rw [List.nil_append, splitBody_blanks hblanks] at h
    exact h
  | cons x t ih =>
    have hcomment := isPrefixOf_append_blanks hblanks (x :: t)
    rw [List.cons_append] at hcomment h
    rw [splitBody, hcomment] at h
    rw [splitBody]
    split at h
    · rename_i hmark
      rw [if_pos hmark]
      exact h
    · rename_i hmark
      rw [if_neg hmark]
      split at h
      · cases h
      · rename_i hclose
        rw [if_neg hclose]
        dsimp only at h ⊢
        split at h
        · rename_i hsplit
          cases h
          rw [ih hsplit]
        · cases h

theorem splitBody_trimEnd (h : splitBody depth t = .inl n) :
    splitBody depth (trimEnd t) = .inl n := by
  obtain ⟨blanks, ht, hblanks⟩ := eq_trimEnd_append t
  rw [ht] at h
  exact splitBody_of_append_blanks hblanks h

theorem eq_append_of_splitBody (h : splitBody depth t = .inr (before, after)) :
    t = before ++ '}' :: after := by
  induction t generalizing depth before with
  | nil => cases h
  | cons x t ih =>
    rw [splitBody] at h
    split at h
    · cases h
    · split at h
      · rename_i hclose
        cases h
        simp only [Bool.and_eq_true, decide_eq_true_eq] at hclose
        rw [hclose.1]
        rfl
      · dsimp only at h
        split at h
        · cases h
        · rename_i hsplit
          cases h
          rw [ih hsplit, List.cons_append]

/-- The part of a line before the end of the body closes all of its braces. -/
theorem splitBody_before (h : splitBody depth t = .inr (before, after)) :
    splitBody depth before = .inl 0 := by
  induction t generalizing depth before with
  | nil => cases h
  | cons x t ih =>
    rw [splitBody] at h
    split at h
    · cases h
    · rename_i hmark
      split at h
      · rename_i hclose
        cases h
        simp only [Bool.and_eq_true, decide_eq_true_eq] at hclose
        rw [splitBody, hclose.2]
      · rename_i hclose
        dsimp only at h
        split at h
        · cases h
        · rename_i before' after' hsplit
          cases h
          have hfront : x :: before' <+: x :: t := by
            rw [eq_append_of_splitBody hsplit]
            exact ⟨'}' :: after, rfl⟩
          rw [splitBody, if_neg fun h => hmark (isPrefixOf_of_front h hfront), if_neg hclose]
          dsimp only
          rw [ih hsplit]

/-! ## Lines -/

theorem isOver_of_front {u : Text} (hne : u ≠ []) (hu : u <+: t) (h : isOver t = false) :
    isOver u = false := by
  simp only [isOver, Bool.or_eq_false_iff] at h ⊢
  refine ⟨by simpa using hne, ?_⟩
  rw [Bool.eq_false_iff]
  intro hmark
  rw [isPrefixOf_of_front hmark hu] at h
  exact absurd h.2 (by decide)

/-- **A body goes on** with the front of what was left of a text. -/
theorem isBody_addLine {body : List String} {line : Text} (h : IsBody body depth)
    (htrim : trimStart t = t) (hover : isOver t = false) (hline : line <+: t)
    (hsplit : splitBody depth line = .inl n) : IsBody (addLine body line) n := by
  have htrim : trim line = trimEnd line := trim_of_trimStart (trimStart_of_front hline htrim)
  have hsplit' := splitBody_trimEnd hsplit
  simp only [addLine, htrim]
  split
  · rename_i hblank
    rw [List.isEmpty_iff.1 hblank] at hsplit'
    cases hsplit'
    exact h
  · rename_i hne
    refine ⟨?_, ?_⟩
    · intro l hl
      rcases List.mem_append.1 hl with hl | hl
      · exact h.isLine l hl
      · rw [List.mem_singleton.1 hl]
        refine ⟨?_, ?_⟩
        · rw [String.toList_ofList, ← htrim, trim_trim]
        · rw [String.toList_ofList]
          exact isOver_of_front (by simpa using hne) ((trimEnd_front line).trans hline) hover
    · rw [openBehind_append, h.openBehind]
      simp [openBehind, hsplit']

/-- **A body goes on or ends** with what is left of a text. -/
theorem legible_of_readBody {name : String} {parameters : List Parameter} {body : List String}
    {f? : Option UserFunction} {rest : Text} (hheading : IsHeading name parameters)
    (hbody : IsBody body depth) (htrim : trimStart t = t) (hover : isOver t = false)
    (h : readBody name parameters body depth t = (f?, next, rest)) :
    next.Legible ∧ ∀ f ∈ f?, f.Legible := by
  unfold readBody at h
  split at h
  · rename_i n hsplit
    cases h
    exact ⟨⟨hheading, isBody_addLine hbody htrim hover List.prefix_rfl hsplit⟩, nofun⟩
  · rename_i before after hsplit
    cases h
    have hbefore : before <+: t := ⟨'}' :: rest, (eq_append_of_splitBody hsplit).symm⟩
    refine ⟨trivial, ?_⟩
    rintro f ⟨⟩
    exact ⟨hheading, isBody_addLine hbody htrim hover hbefore (splitBody_before hsplit)⟩

/-! ## Headings -/

theorem legible_of_parameter {p : Parameter} (h : parameter c = (.ok p, d)) : p.Legible := by
  unfold parameter at h
  split at h
  · cases h
  · rename_i word c' hnext
    have hname := Name.scan?_self (Lexeme.scan?_eq_name_iff.1 (Lexeme.scan?_of_next hnext))
    rw [← String.toList_ofList (l := word)] at hname
    simp only at h
    split at h
    · cases h
      exact ⟨hname, nofun⟩
    · split at h
      · cases h
      · rename_i inside rest hcut
        split at h
        · rename_i hvalid
          cases h
          refine ⟨hname, ?_⟩
          rintro unit ⟨⟩
          have hnot := (eq_append_of_cut? hcut).2
          rw [String.toList_ofList]
          exact ⟨hvalid, trim_trim inside, fun hmem => hnot (mem_of_mem_trim hmem)⟩
        · cases h
  · cases h

theorem legible_of_addParameter {name : String} {parameters : List Parameter}
    (hheading : IsHeading name parameters) (h : addParameter name parameters c = (.ok next, d)) :
    next.Legible := by
  unfold addParameter at h
  split at h
  · cases h
  · rename_i p c' hparameter
    split at h
    · cases h
    · rename_i hnew
      cases h
      refine ⟨hheading.name, ?_, ?_⟩
      · intro q hq
        rcases List.mem_append.1 hq with hq | hq
        · exact hheading.legible q hq
        · rw [List.mem_singleton.1 hq]
          exact legible_of_parameter hparameter
      · rw [List.map_append, List.nodup_append]
        refine ⟨hheading.nodup, by simp, ?_⟩
        rintro name hname _ hp rfl
        obtain ⟨q, hq, rfl⟩ := List.mem_map.1 hname
        refine hnew (List.any_eq_true.2 ⟨q, hq, ?_⟩)
        simpa using hp

theorem legible_of_keyword (h : keyword c = (.ok next, d)) : next.Legible := by
  unfold keyword at h
  split at h
  · cases h
  · split at h
    · simp only at h
      split at h
      · rename_i hscan
        cases h
        refine ⟨?_, nofun, List.nodup_nil⟩
        rw [String.toList_ofList]
        exact Name.scan?_self hscan
      · cases h
    · cases h
  · cases h

/-- **Each part of a heading can be read again.** -/
theorem legible_of_step (hdraft : draft.Legible) (h : step draft c = (.ok next, d)) :
    next.Legible := by
  cases draft with
  | idle => exact legible_of_keyword h
  | named name =>
    simp only [step] at h
    split at h <;> cases h
    exact hdraft
  | listed name =>
    simp only [step] at h
    split at h
    · cases h
      exact hdraft
    · exact legible_of_addParameter hdraft h
  | awaiting name parameters => exact legible_of_addParameter hdraft h
  | separated name parameters =>
    simp only [step] at h
    split at h <;> cases h <;> exact hdraft
  | headed name parameters =>
    simp only [step] at h
    split at h <;> cases h
    exact ⟨hdraft, by simp, rfl⟩
  | inBody name parameters body depth =>
    cases h
    exact hdraft

/-- **What was read on a line can be read again**, whatever was read before it. -/
theorem legible_of_readOn (draft : Draft) (c : Cursor) (hdraft : draft.Legible) :
    (draft.readOn c).2.Legible ∧
      ∀ f, (draft.readOn c).1.value = .ok (some f) → f.Legible := by
  induction draft, c using readOn_induction with
  | ended _ => exact ⟨hdraft, nofun⟩
  | body hover hread =>
    obtain ⟨hnext, hf⟩ :=
      legible_of_readBody hdraft.1 hdraft.2 (trimStart_trimStart _) hover hread
    refine ⟨hnext, ?_⟩
    rintro f ⟨⟩
    exact hf f rfl
  | refused => exact ⟨trivial, nofun⟩
  | part _ _ hstep ih => exact ih (legible_of_step hdraft hstep)

end Draft

end QuantityCalc
