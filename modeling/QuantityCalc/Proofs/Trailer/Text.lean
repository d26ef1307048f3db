import QuantityCalc.Command.Keyword
import QuantityCalc.Expression.Basic
import QuantityCalc.Proofs.Lexeme.Break
import QuantityCalc.Proofs.Text.Trim
import QuantityCalc.Proofs.Unit.Break

/-!
# Trailers

A trailer is what may follow a command on its line: a semicolon with further commands, or a space
with a comment. It is no part of what is read in front of it. What may follow an expression is an
ending: nothing, a trailer, or a comma and a space with further expressions of a list.

`Trails r t t'` says that `t'` is the text `t` with the text `r` behind it, apart from white space
at their fronts. So it does not matter who skips the white space between a command and its
trailer.
-/

namespace QuantityCalc

namespace Text

/-- What may follow a command on its line. -/
inductive IsTrailer : Text → Prop where
  | commands (next : Text) : IsTrailer (';' :: next)
  | comment (words : Text) : IsTrailer (' ' :: '/' :: '/' :: words)

/-- What may follow an expression. -/
inductive IsEnding : Text → Prop where
  | nil : IsEnding []
  | trailer {r : Text} (h : IsTrailer r) : IsEnding r
  | element (next : Text) : IsEnding (',' :: ' ' :: next)

/-- A text is another one with a third one behind it, apart from white space at their fronts. -/
def Trails (r t t' : Text) : Prop := trimStart t' = trimStart (t ++ r)

/-- What is left of a text is left with another one behind it. If nothing is left, the white space
in front of the other one may be skipped. -/
def Remains (r rest rest' : Text) : Prop := rest' = rest ++ r ∨ rest = [] ∧ rest' = trimStart r

variable {r t t' : Text}

/-- No character of a name or a number is in front of a trailer. -/
theorem IsTrailer.isBreak (hr : IsTrailer r) : IsBreak r := by
  cases hr with
  | commands next => exact .semicolon next
  | comment words => exact .space _

theorem IsEnding.isBreak (hr : IsEnding r) : IsBreak r := by
  cases hr with
  | nil => exact .nil
  | trailer h => exact h.isBreak
  | element next => exact .comma next

theorem trimStart_semicolon (t : Text) : trimStart (';' :: t) = ';' :: t :=
  List.dropWhile_cons_of_neg (by decide)

theorem trimStart_comment (t : Text) : trimStart (' ' :: '/' :: '/' :: t) = '/' :: '/' :: t :=
  (List.dropWhile_cons_of_pos (by decide)).trans (List.dropWhile_cons_of_neg (by decide))

theorem trimStart_comma (t : Text) : trimStart (',' :: t) = ',' :: t :=
  List.dropWhile_cons_of_neg (by decide)

/-- The characters with which trailers start, apart from white space. -/
def trailerMarks : List Char := [';', '/']

/-- Behind white space, a trailer starts with one of its marks. -/
theorem IsTrailer.trimStart_eq_cons (hr : IsTrailer r) :
    ∃ c ∈ trailerMarks, ∃ u, trimStart r = c :: u := by
  cases hr with
  | commands next => exact ⟨';', by decide, next, trimStart_semicolon next⟩
  | comment words => exact ⟨'/', by decide, '/' :: words, trimStart_comment words⟩

/-- What a reader looks for behind white space is not in front of a trailer, unless it is one of the
marks. -/
theorem IsTrailer.head?_ne (hr : IsTrailer r) {x : Char} (hx : x ∉ trailerMarks) :
    (trimStart r).head? ≠ some x := by
  obtain ⟨c, hc, u, hu⟩ := hr.trimStart_eq_cons
  rintro heq
  rw [hu] at heq
  cases heq
  exact hx hc

/-- The characters with which endings start, apart from white space. -/
def endingMarks : List Char := ',' :: trailerMarks

theorem forall_endingMarks {P : Char → Prop} (hcomma : P ',') (hsemicolon : P ';')
    (hslash : P '/') : ∀ c ∈ endingMarks, P c := by
  simp [endingMarks, trailerMarks, hcomma, hsemicolon, hslash]

theorem IsEnding.mem_endingMarks (hr : IsEnding r) :
    ∀ c ∈ (trimStart r).head?, c ∈ endingMarks := by
  cases hr with
  | nil => nofun
  | trailer h =>
    obtain ⟨c, hc, u, hu⟩ := h.trimStart_eq_cons
    rw [hu]
    rintro _ ⟨⟩
    exact List.mem_cons_of_mem _ hc
  | element next =>
    rw [trimStart_comma]
    rintro _ ⟨⟩
    decide

/-- What a reader looks for behind white space is not in front of an ending, unless it is one of the
marks. -/
theorem IsEnding.head?_ne (hr : IsEnding r) {x : Char} (hx : x ∉ endingMarks) :
    (trimStart r).head? ≠ some x :=
  fun heq => hx (hr.mem_endingMarks x heq)

/-- In front of an ending, there is nothing more of an expression. -/
theorem IsEnding.endsAt_trimStart (hr : IsEnding r) : Expression.endsAt (trimStart r) = true := by
  cases hr with
  | nil => rfl
  | trailer h =>
    cases h with
    | commands next =>
      rw [trimStart_semicolon]
      simp [Expression.endsAt]
    | comment words =>
      rw [trimStart_comment]
      simp [Expression.endsAt, isOver, commentMark]
  | element next =>
    rw [trimStart_comma]
    simp [Expression.endsAt]

/-- A text of white space is skipped as a whole, and so is the white space behind it. -/
theorem trimStart_append_of_nil (h : trimStart t = []) (r : Text) :
    trimStart (t ++ r) = trimStart r := by
  unfold trimStart at h ⊢
  rw [List.dropWhile_append, h]
  rfl

theorem trimStart_append_of_cons {c : Char} {u : Text} (h : trimStart t = c :: u) (r : Text) :
    trimStart (t ++ r) = c :: (u ++ r) := by
  unfold trimStart at h ⊢
  rw [List.dropWhile_append, h]
  rfl

namespace Trails

theorem append (t r : Text) : Trails r t (t ++ r) := rfl

theorem of_eq (h : t' = t ++ r) : Trails r t t' := h ▸ append t r

/-- Behind the end of a text, the white space in front of a trailer may be skipped. -/
theorem nil (r : Text) : Trails r [] (trimStart r) := trimStart_trimStart r

/-- Behind the white space there is nothing but the trailer, or the text goes on. -/
theorem cases (h : Trails r t t') :
    trimStart t = [] ∧ trimStart t' = trimStart r ∨
      ∃ c u, trimStart t = c :: u ∧ trimStart t' = c :: (u ++ r) := by
  cases ht : trimStart t with
  | nil => exact .inl ⟨rfl, Eq.trans h (trimStart_append_of_nil ht r)⟩
  | cons c u => exact .inr ⟨c, u, rfl, Eq.trans h (trimStart_append_of_cons ht r)⟩

theorem eq_cons {c : Char} {u : Text} (h : Trails r t t') (ht : trimStart t = c :: u) :
    trimStart t' = c :: (u ++ r) :=
  Eq.trans h (trimStart_append_of_cons ht r)

/-- White space may be skipped on both sides. -/
theorem trimmed (h : Trails r t t') : Trails r (trimStart t) (trimStart t') := by
  rcases h.cases with ⟨hnil, h⟩ | ⟨c, u, ht, ht'⟩
  · rw [hnil, h]
    exact .nil r
  · rw [ht, ht']
    exact .append (c :: u) r

/-- Without the white space at their fronts, one text is the other one with the third one left
behind it. -/
theorem remains (h : Trails r t t') : Remains r (trimStart t) (trimStart t') := by
  rcases h.cases with ⟨hnil, h⟩ | ⟨c, u, ht, ht'⟩
  · exact .inr ⟨hnil, h⟩
  · exact .inl (by rw [ht, ht']; rfl)

/-- A character that does not start the text behind stands at the front of both texts or of
neither. -/
theorem front (h : Trails r t t') {x : Char} (hx : (trimStart r).head? ≠ some x) :
    (∃ u, trimStart t = x :: u ∧ trimStart t' = x :: (u ++ r)) ∨
      (∀ u, trimStart t ≠ x :: u) ∧ ∀ u, trimStart t' ≠ x :: u := by
  rcases h.cases with ⟨hnil, h⟩ | ⟨y, u, ht, ht'⟩
  · right
    rw [hnil, h]
    refine ⟨nofun, fun v hv => hx ?_⟩
    rw [hv]
    rfl
  · rw [ht, ht']
    by_cases hy : y = x
    · subst hy
      exact .inl ⟨u, rfl, rfl⟩
    · refine .inr ⟨fun v hv => ?_, fun v hv => ?_⟩ <;> cases hv <;> exact hy rfl

end Trails

/-- What remains in front of a text trails it, whoever skips the white space in between. -/
theorem Remains.trails (h : Remains r t t') : Trails r t t' := by
  rcases h with h | ⟨rfl, rfl⟩
  · exact .of_eq h
  · exact .nil r

/-! ## Readers of marks and names -/

/-- A mark is read in the same way, whatever is behind the text. -/
theorem dropLead?_append {lead rest : Text} (h : dropLead? lead t = some rest) (r : Text) :
    dropLead? lead (t ++ r) = some (rest ++ r) := by
  rw [dropLead?_eq_some_iff] at h ⊢
  rw [h, List.append_assoc]

/-- The first place of a mark is the same, whatever is behind the text. -/
theorem cut?_append {x : Char} {before after : Text} (h : cut? x t = some (before, after))
    (r : Text) : cut? x (t ++ r) = some (before, after ++ r) := by
  induction t generalizing before with
  | nil => cases h
  | cons d t ih =>
    by_cases hd : d = x
    · simp only [cut?, hd, if_true, Option.some.injEq, Prod.mk.injEq] at h
      obtain ⟨rfl, rfl⟩ := h
      simp [cut?, hd]
    · simp only [cut?, hd, if_false, Option.map_eq_some_iff, Prod.mk.injEq] at h
      obtain ⟨⟨b, a⟩, hcut, rfl, rfl⟩ := h
      simp [cut?, hd, ih hcut]

/-- A slash at the end of a text does not become a comment. -/
theorem isPrefixOf_commentMark_append (hr : IsBreak r) (x : Char) (u : Text) :
    commentMark.isPrefixOf (x :: u ++ r) = commentMark.isPrefixOf (x :: u) := by
  match u with
  | [] => cases hr <;> simp [commentMark, List.isPrefixOf]
  | z :: u => simp [commentMark, List.isPrefixOf]

theorem isOver_append_of_cons (hr : IsBreak r) (x : Char) (u : Text) :
    isOver (x :: u ++ r) = isOver (x :: u) := by
  rw [isOver, isPrefixOf_commentMark_append hr, isOver]
  rfl

/-- A name in front of an ending is read in the same way, and the ending is left behind it. -/
theorem Trails.scan? (hr : IsEnding r) (h : Trails r t t') :
    Name.scan? (trimStart t') =
      (Name.scan? (trimStart t)).map fun (word, rest) => (word, rest ++ r) := by
  rcases h.cases with ⟨hnil, h⟩ | ⟨c, u, ht, ht'⟩
  · have hstart : ∀ c ∈ endingMarks, Name.isStart c = false :=
      forall_endingMarks (by decide) (by decide) (by decide)
    rw [h, hnil]
    cases hmark : trimStart r with
    | nil => rfl
    | cons c u => simp [Name.scan?, hstart c (hr.mem_endingMarks c (by rw [hmark]; rfl))]
  · rw [ht, ht']
    exact Name.scan?_append hr.isBreak (c :: u)

end Text

open Text

variable {r t t' : Text}

namespace Name

/-- A segment of a path is a point with a name behind it. -/
theorem segmentsFrom_of_scan? {word rest : Text} (h : scan? t = some (word, rest)) :
    segmentsFrom ('.' :: t) = ('.' :: word ++ (segmentsFrom rest).1, (segmentsFrom rest).2) := by
  rw [segmentsFrom]
  split
  · rename_i h'
    cases h.symm.trans h'
    rfl
  · rename_i h'
    cases h.symm.trans h'

/-- A point that has no name behind it belongs to no path. -/
theorem segmentsFrom_of_scan?_eq_none (h : scan? t = none) :
    segmentsFrom ('.' :: t) = ([], '.' :: t) := by
  rw [segmentsFrom]
  split
  · rename_i h'
    cases h.symm.trans h'
  · rfl

theorem segmentsFrom_of_ne {c : Char} (h : c ≠ '.') : segmentsFrom (c :: t) = ([], c :: t) := by
  rw [segmentsFrom]
  simp [h]

/-- The segments of a path end in front of a break. -/
theorem segmentsFrom_append (hr : IsBreak r) (t : Text) :
    segmentsFrom (t ++ r) = ((segmentsFrom t).1, (segmentsFrom t).2 ++ r) := by
  induction hn : t.length using Nat.strongRecOn generalizing t with
  | ind n ih =>
    match t with
    | [] => cases hr <;> simp [segmentsFrom]
    | c :: t =>
      by_cases hc : c = '.'
      · subst hc
        have hscan' := scan?_append hr t
        cases hscan : scan? t with
        | none =>
          rw [hscan] at hscan'
          rw [List.cons_append, segmentsFrom_of_scan?_eq_none hscan',
            segmentsFrom_of_scan?_eq_none hscan]
          rfl
        | some x =>
          obtain ⟨word, rest⟩ := x
          rw [hscan] at hscan'
          have hlt : rest.length < n := by
            have := length_lt_of_scan? hscan
            rw [List.length_cons] at hn
            omega
          rw [List.cons_append, segmentsFrom_of_scan? hscan', segmentsFrom_of_scan? hscan,
            ih rest.length hlt rest rfl]
      · rw [List.cons_append, segmentsFrom_of_ne hc, segmentsFrom_of_ne hc]
        rfl

/-- A path in front of a trailer is read in the same way, and the trailer is left behind it. -/
theorem path?_of_trails (hr : IsTrailer r) (h : Trails r t t') :
    path? t' = (path? t).map fun (path, rest) => (path, rest ++ r) := by
  simp only [path?, h.scan? (.trailer hr)]
  cases scan? (trimStart t) with
  | none => rfl
  | some x => simp [segmentsFrom_append hr.isBreak]

/-- The left side of an assignment is read in the same way, and the trailer is left behind it. -/
theorem assignment?_of_trails (hr : IsTrailer r) (h : Trails r t t') :
    assignment? t' = (assignment? t).map fun (path, rest) => (path, rest ++ r) := by
  simp only [assignment?, path?_of_trails hr h]
  cases path? t with
  | none => rfl
  | some x =>
    obtain ⟨path, rest⟩ := x
    simp only [Option.map_some, Option.bind_eq_bind, Option.bind_some]
    rcases (Trails.append rest r).cases with ⟨hnil, h⟩ | ⟨c, u, ht, ht'⟩
    · rw [h, hnil]
      cases hr with
      | commands next => simp [trimStart_semicolon]
      | comment words => simp [trimStart_comment]
    · rw [ht, ht']
      by_cases hc : c = '='
      · subst hc
        match u with
        | [] => cases hr <;> simp
        | d :: u => by_cases hd : d = '=' <;> simp [hd]
      · simp [hc]

end Name

/-- A keyword in front of a trailer is read in the same way, and the trailer is left behind it. -/
theorem Keyword.scan?_append (hr : IsTrailer r) (t : Text) :
    scan? (t ++ r) = (scan? t).map fun (k, rest) => (k, rest ++ r) := by
  simp only [scan?, Name.scan?_append hr.isBreak]
  cases Name.scan? t with
  | none => rfl
  | some x =>
    obtain ⟨word, rest⟩ := x
    simp only [Option.map_some, Option.bind_eq_bind, Option.bind_some]
    cases ofWord? word <;> rfl

namespace Session

variable {s : Session} {path last : String} {m : Meaning} {m? : Option Meaning}

/-- The search for a name goes on in a container, at the next segment of the path. -/
theorem follow_of_scan? {word rest : Text} (hm : m.isContainer = true)
    (h : Name.scan? t = some (word, rest)) :
    s.follow path last (some m) ('.' :: t) =
      s.follow (path ++ "." ++ String.ofList word) (String.ofList word)
        (s.meaningIn? m.home (String.ofList word)) rest := by
  rw [follow, if_pos hm]
  split
  · rename_i h'
    cases h.symm.trans h'
    rfl
  · rename_i h'
    cases h.symm.trans h'

/-- The search ends where there is no container, or no further segment. -/
theorem follow_eq_self (h : ∀ u m, t = '.' :: u → m? = some m → m.isContainer = true →
    Name.scan? u = none) : s.follow path last m? t = ⟨path, last, m?, t⟩ := by
  unfold follow
  split
  · rename_i u m
    split
    · rename_i hm
      have hnone := h u m rfl rfl hm
      split
      · rename_i h'
        cases hnone.symm.trans h'
      · rfl
    · rfl
  · rfl

/-- A break does not change what the name in front of it stands for. -/
theorem follow_append (hr : IsBreak r) (s : Session) (path last : String) (m? : Option Meaning)
    (t : Text) : s.follow path last m? (t ++ r) =
      { s.follow path last m? t with rest := (s.follow path last m? t).rest ++ r } := by
  induction hn : t.length using Nat.strongRecOn generalizing path last m? t with
  | ind n ih =>
    by_cases hon : ∃ u m word rest, t = '.' :: u ∧ m? = some m ∧ m.isContainer = true ∧
        Name.scan? u = some (word, rest)
    · obtain ⟨u, m, word, rest, rfl, rfl, hm, hscan⟩ := hon
      have hscan' := Name.scan?_append hr u
      rw [hscan] at hscan'
      have hlt := Name.length_lt_of_scan? hscan
      rw [List.length_cons] at hn
      rw [List.cons_append, follow_of_scan? hm hscan', follow_of_scan? hm hscan]
      exact ih rest.length (by omega) _ _ _ rest rfl
    · have hstop (u : Text) (m : Meaning) (hu : t = '.' :: u) (hm? : m? = some m)
          (hm : m.isContainer = true) : Name.scan? u = none := by
        refine Option.eq_none_iff_forall_ne_some.2 fun ⟨word, rest⟩ hscan => ?_
        exact hon ⟨u, m, word, rest, hu, hm?, hm, hscan⟩
      rw [follow_eq_self hstop, follow_eq_self]
      intro u m hu hm? hm
      match t with
      | [] => cases hr <;> cases hu
      | c :: t =>
        obtain ⟨rfl, rfl⟩ : c = '.' ∧ t ++ r = u := by simpa using hu
        rw [Name.scan?_append hr, hstop t m rfl hm? hm]
        rfl

/-- What a name stands for does not depend on what is behind a break. -/
theorem resolve_append (hr : IsBreak r) (s : Session) (name : String) (t : Text) :
    s.resolve name (t ++ r) = { s.resolve name t with rest := (s.resolve name t).rest ++ r } :=
  follow_append hr s name name _ t

end Session

end QuantityCalc
