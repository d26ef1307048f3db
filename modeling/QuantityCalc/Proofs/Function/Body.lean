import QuantityCalc.Proofs.Function.RoundTrip
import Mathlib.Data.List.Infix

/-!
# Where a body ends

A comment hides the braces behind it, so the braces of a line are counted in its `code`. The body of
a function ends at the first closing brace that outnumbers the opening ones of all lines fed so far
(`Draft.EndsBody`). The lines in front of it are kept as they are, apart from white space at their
ends, blank lines and lines that are comments (`Draft.kept`), and what stands behind it is left
(`Draft.feedAll_endsBody`). The number of braces that are open is carried from line to line: behind
some lines, a text overcloses the body exactly if the lines and the text do
(`Draft.overcloses_append_iff`).
-/

namespace QuantityCalc.Draft

open Text

variable {t u before after : Text} {earlier later lines : List Text} {depth n : Nat}
  {name : String} {parameters : List Parameter}

/-! ## Counting braces -/

/-- The part of a line in front of its first comment. -/
def code : Text → Text
  | [] => []
  | x :: t => if commentMark.isPrefixOf (x :: t) then [] else x :: code t

/-- More braces are closed in a text than are open in front of it and opened in it. -/
def Overcloses (depth : Nat) (t : Text) : Prop := depth + t.count '{' < t.count '}'

instance (depth : Nat) (t : Text) : Decidable (Overcloses depth t) :=
  inferInstanceAs (Decidable (_ < _))

/-- The closing brace between two parts of a line ends a body that has so many braces open and goes
on with some lines: no comment hides it, and it is the first one at which more braces are closed
than opened. -/
structure EndsBody (depth : Nat) (earlier : List Text) (before after : Text) : Prop where
  visible : before ++ ['}'] <+: code (before ++ '}' :: after)
  first : ∀ front, front <+: earlier.flatMap code ++ before → ¬Overcloses depth front
  overcloses : Overcloses depth (earlier.flatMap code ++ before ++ ['}'])

/-- The number of open braces behind a character that does not end the body. -/
def depthBehind (depth : Nat) (x : Char) : Nat :=
  if x = '{' then depth + 1 else if x = '}' then depth - 1 else depth

theorem code_front (t : Text) : code t <+: t := by
  induction t with
  | nil => exact List.prefix_rfl
  | cons x t ih =>
    rw [code]
    split
    · exact List.nil_prefix
    · exact List.prefix_cons_inj x |>.2 ih

theorem not_overcloses_nil (depth : Nat) : ¬Overcloses depth [] := by simp [Overcloses]

theorem overcloses_close_iff : Overcloses depth ['}'] ↔ depth = 0 := by
  simp [Overcloses]

/-- A character that does not end the body changes the number of open braces. -/
theorem add_count_cons_iff {x : Char} (hx : ¬Overcloses depth [x]) (t : Text) :
    n + (x :: t).count '}' = depth + (x :: t).count '{' ↔
      n + t.count '}' = depthBehind depth x + t.count '{' := by
  by_cases hopen : x = '{'
  · subst hopen
    simp [depthBehind]
    omega
  · by_cases hclose : x = '}'
    · subst hclose
      rw [overcloses_close_iff] at hx
      simp [depthBehind]
      omega
    · simp [depthBehind, hopen, hclose]

theorem overcloses_cons_iff {x : Char} (hx : ¬Overcloses depth [x]) (t : Text) :
    Overcloses depth (x :: t) ↔ Overcloses (depthBehind depth x) t := by
  have hcount := add_count_cons_iff (n := depthBehind depth x) hx []
  simp only [List.count_nil, iff_true] at hcount
  have happend (brace : Char) : (x :: t).count brace = [x].count brace + t.count brace := by
    rw [← List.count_append, List.singleton_append]
  have hopen := happend '{'
  have hclose := happend '}'
  simp only [Overcloses]
  omega

/-- **Counting goes on from one text to the next.** -/
theorem overcloses_append_iff (hn : n + t.count '}' = depth + t.count '{') (u : Text) :
    Overcloses depth (t ++ u) ↔ Overcloses n u := by
  simp only [Overcloses, List.count_append]
  omega

theorem add_count_of_not_overcloses (h : ¬Overcloses depth t) :
    depth + t.count '{' - t.count '}' + t.count '}' = depth + t.count '{' := by
  unfold Overcloses at h
  omega

theorem splitBody_cons {x : Char} (hcomment : commentMark.isPrefixOf (x :: t) = false)
    (hx : ¬Overcloses depth [x]) : splitBody depth (x :: t) =
      match splitBody (depthBehind depth x) t with
      | .inl n => .inl n
      | .inr (before, after) => .inr (x :: before, after) := by
  have hends : ¬(x = '}' && decide (depth = 0)) = true := by
    rintro hends
    simp only [Bool.and_eq_true, decide_eq_true_eq] at hends
    exact hx (hends.1 ▸ overcloses_close_iff.2 hends.2)
  rw [splitBody, hcomment, if_neg Bool.false_ne_true, if_neg hends]
  rfl

/-- **A line that closes no more braces than are open goes on.** -/
theorem splitBody_of_open (h : ∀ front, front <+: code t → ¬Overcloses depth front)
    (hn : n + (code t).count '}' = depth + (code t).count '{') : splitBody depth t = .inl n := by
  induction t generalizing depth with
  | nil =>
    obtain rfl : n = depth := hn
    rfl
  | cons x t ih =>
    rw [code] at h hn
    cases hcomment : commentMark.isPrefixOf (x :: t) with
    | true =>
      rw [if_pos hcomment] at hn
      obtain rfl : n = depth := hn
      rw [splitBody, if_pos hcomment]
    | false =>
      rw [if_neg (Bool.eq_false_iff.1 hcomment)] at h hn
      have hx : ¬Overcloses depth [x] := h [x] ⟨code t, rfl⟩
      rw [splitBody_cons hcomment hx, ih (fun front hfront => ?_) ((add_count_cons_iff hx _).1 hn)]
      rw [← overcloses_cons_iff hx]
      exact h (x :: front) ((List.prefix_cons_inj x).2 hfront)

/-- **A line that ends a body is split at its brace.** -/
theorem splitBody_of_endsBody (h : EndsBody depth [] before after) :
    splitBody depth (before ++ '}' :: after) = .inr (before, after) := by
  obtain ⟨hvisible, hfirst, hover⟩ := h
  simp only [List.flatMap_nil, List.nil_append] at hfirst hover
  induction before generalizing depth with
  | nil =>
    obtain rfl := overcloses_close_iff.1 hover
    simp [splitBody, commentMark, List.isPrefixOf]
  | cons x before ih =>
    simp only [List.cons_append, code] at hvisible
    cases hcomment : commentMark.isPrefixOf (x :: (before ++ '}' :: after)) with
    | true =>
      rw [if_pos hcomment] at hvisible
      cases List.prefix_nil.1 hvisible
    | false =>
      rw [if_neg (Bool.eq_false_iff.1 hcomment), List.prefix_cons_inj] at hvisible
      have hx : ¬Overcloses depth [x] := hfirst [x] ⟨before, rfl⟩
      have hrest := ih hvisible (fun front hfront => ?_) ((overcloses_cons_iff hx _).1 hover)
      · rw [List.cons_append, splitBody_cons hcomment hx, hrest]
      · rw [← overcloses_cons_iff hx]
        exact hfirst (x :: front) ((List.prefix_cons_inj x).2 hfront)

/-! ## Lines -/

/-- The lines of a body that are kept: trimmed, without blank ones and without comments. -/
def kept (lines : List Text) : List String :=
  ((lines.map trim).filter (!isOver ·)).map String.ofList

theorem kept_append (lines others : List Text) :
    kept (lines ++ others) = kept lines ++ kept others := by
  simp [kept]

theorem splitBody_trimStart (depth : Nat) (t : Text) :
    splitBody depth (trimStart t) = match splitBody depth t with
      | .inl n => .inl n
      | .inr (before, after) => .inr (trimStart before, after) := by
  induction t with
  | nil => rfl
  | cons x t ih =>
    cases hblank : isBlank x with
    | true =>
      obtain ⟨hslash, hopen, hclose⟩ := ne_of_isBlank hblank
      have hcomment : commentMark.isPrefixOf (x :: t) = false := by
        simp [commentMark, List.isPrefixOf, hslash.symm]
      have hx : ¬Overcloses depth [x] := by simp [Overcloses, hopen, hclose]
      have hdepth : depthBehind depth x = depth := by simp [depthBehind, hopen, hclose]
      rw [trimStart, List.dropWhile_cons_of_pos hblank, ← trimStart, ih, splitBody_cons hcomment hx,
        hdepth]
      rcases splitBody depth t with m | ⟨before, after⟩
      · rfl
      · simp [trimStart, hblank]
    | false =>
      have hstart (u : Text) : trimStart (x :: u) = x :: u :=
        List.dropWhile_cons_of_neg (by simp [hblank])
      rw [hstart]
      rcases hsplit : splitBody depth (x :: t) with m | ⟨before, after⟩
      · rfl
      · have hbefore := eq_append_of_splitBody hsplit
        cases before with
        | nil => rfl
        | cons y before =>
          cases hbefore
          simp only [hstart]

theorem splitBody_of_over (h : isOver t = true) (depth : Nat) : splitBody depth t = .inl depth := by
  cases t with
  | nil => rfl
  | cons x t => rw [splitBody, if_pos (by simpa [isOver] using h)]

theorem isPrefixOf_trim (t : Text) :
    commentMark.isPrefixOf (trim t) = commentMark.isPrefixOf (trimStart t) := by
  obtain ⟨blanks, ht, hblanks⟩ := eq_trimEnd_append (trimStart t)
  have hmark := isPrefixOf_append_blanks hblanks (trim t)
  rw [trim, ← ht] at hmark
  exact hmark.symm

theorem isOver_trim (t : Text) : isOver (trim t) = isOver (trimStart t) := by
  rw [isOver, isOver, isPrefixOf_trim]
  cases ht : trimStart t with
  | nil => rw [trim, ht]; rfl
  | cons x u =>
    have hx : isBlank x = false :=
      isBlank_of_head?_trimStart (ht ▸ trimStart_trimStart t) x rfl
    obtain ⟨blanks, htrim, hblanks⟩ := eq_trimEnd_append (x :: u)
    have hne : trim t ≠ [] := by
      intro hnil
      rw [trim, ht] at hnil
      rw [hnil, List.nil_append] at htrim
      rw [hblanks x (htrim ▸ List.mem_cons_self)] at hx
      cases hx
    rw [List.isEmpty_eq_false_iff.2 hne]
    rfl

theorem addLine_eq {line : Text} (h : commentMark.isPrefixOf (trim line) = false)
    (body : List String) : addLine body line = body ++ kept [line] := by
  simp only [addLine, kept, List.map_cons, List.map_nil, List.filter_cons, isOver, h, Bool.or_false]
  cases (trim line).isEmpty with
  | true => simp
  | false => simp

/-- **A line without the end of the body is kept**, and the body goes on. -/
theorem feed_of_inl (h : splitBody depth t = .inl n) (body : List String) :
    (inBody name parameters body depth).feed t =
      (⟨.ok none, []⟩, inBody name parameters (body ++ kept [t]) n) := by
  have hsplit := splitBody_trimStart depth t
  rw [h] at hsplit
  cases hover : isOver (trimStart t) with
  | true =>
    rw [splitBody_of_over hover] at hsplit
    cases hsplit
    have hkept : kept [t] = [] := by simp [kept, isOver_trim, hover]
    rw [feed, readOn_of_over hover, hkept, List.append_nil]
  | false =>
    have hmark : commentMark.isPrefixOf (trim (trimStart t)) = false := by
      rw [trim_trimStart, isPrefixOf_trim]
      simp only [isOver, Bool.or_eq_false_iff] at hover
      exact hover.2
    have hkept : kept [trimStart t] = kept [t] := by simp [kept, trim_trimStart]
    rw [feed, readOn_inBody hover]
    simp only [Cursor.rest_start, readBody, hsplit, addLine_eq hmark, hkept]

/-- **The closing brace that ends a body finishes the function.** -/
theorem feed_of_inr (h : splitBody depth t = .inr (before, after)) (body : List String) :
    (inBody name parameters body depth).feed t =
      (⟨.ok (some ⟨name, parameters, body ++ kept [before]⟩), after⟩, idle) := by
  have hsplit := splitBody_trimStart depth t
  rw [h] at hsplit
  have hover : isOver (trimStart t) = false := by
    rw [Bool.eq_false_iff]
    intro hover
    rw [splitBody_of_over hover] at hsplit
    cases hsplit
  have hmark : commentMark.isPrefixOf (trim (trimStart before)) = false := by
    have hfront : trim (trimStart before) <+: trimStart t := by
      rw [trim_trimStart, eq_append_of_splitBody hsplit]
      exact (trimEnd_front _).trans (List.prefix_append _ _)
    rw [Bool.eq_false_iff]
    intro hmark
    rw [isOver, isPrefixOf_of_front hmark hfront, Bool.or_true] at hover
    cases hover
  have hkept : kept [trimStart before] = kept [before] := by simp [kept, trim_trimStart]
  rw [feed, readOn_inBody hover]
  simp only [Cursor.rest_start, readBody, hsplit, addLine_eq hmark, hkept]

/-! ## Bodies -/

theorem feedAll_of_open (h : ∀ front, front <+: lines.flatMap code → ¬Overcloses depth front)
    (hn : n + (lines.flatMap code).count '}' = depth + (lines.flatMap code).count '{')
    (body : List String) :
    (inBody name parameters body depth).feedAll lines =
      (List.replicate lines.length ⟨.ok none, []⟩,
        inBody name parameters (body ++ kept lines) n) := by
  induction lines generalizing depth body with
  | nil =>
    obtain rfl : n = depth := hn
    simp [feedAll, kept]
  | cons line lines ih =>
    rw [List.flatMap_cons] at h hn
    have hline (front : Text) (hfront : front <+: code line) : ¬Overcloses depth front :=
      h front (hfront.trans (List.prefix_append _ _))
    have hcount := add_count_of_not_overcloses (hline _ List.prefix_rfl)
    have hmore (front : Text) (hfront : front <+: lines.flatMap code) :
        ¬Overcloses (depth + (code line).count '{' - (code line).count '}') front := by
      rw [← overcloses_append_iff hcount]
      exact h _ ((List.prefix_append_right_inj _).2 hfront)
    have hrest := ih hmore (by simp only [List.count_append] at hn; omega) (body ++ kept [line])
    rw [feedAll_cons, feed_of_inl (splitBody_of_open hline hcount), hrest, List.append_assoc,
      ← kept_append]
    rfl

theorem feedAll_of_endsBody (h : EndsBody depth earlier before after) (body : List String) :
    (inBody name parameters body depth).feedAll (earlier ++ [before ++ '}' :: after]) =
      (List.replicate earlier.length ⟨.ok none, []⟩ ++
        [⟨.ok (some ⟨name, parameters, body ++ kept (earlier ++ [before])⟩), after⟩], idle) := by
  have hopen (front : Text) (hfront : front <+: earlier.flatMap code) : ¬Overcloses depth front :=
    h.first front (hfront.trans (List.prefix_append _ _))
  have hcount := add_count_of_not_overcloses (hopen _ List.prefix_rfl)
  have hlast : EndsBody (depth + (earlier.flatMap code).count '{' -
      (earlier.flatMap code).count '}') [] before after := by
    refine ⟨h.visible, fun front hfront => ?_, ?_⟩
    · rw [← overcloses_append_iff hcount]
      exact h.first _ ((List.prefix_append_right_inj _).2 hfront)
    · rw [List.flatMap_nil, List.nil_append, ← overcloses_append_iff hcount, ← List.append_assoc]
      exact h.overcloses
  rw [feedAll_append, feedAll_of_open hopen hcount, feedAll_cons,
    feed_of_inr (splitBody_of_endsBody hlast), List.append_assoc, ← kept_append]
  rfl

theorem exists_first (h : ∃ front, front <+: t ∧ Overcloses depth front) :
    ∃ front rest, t = front ++ '}' :: rest ∧
      (∀ mid, mid <+: front → ¬Overcloses depth mid) ∧ Overcloses depth (front ++ ['}']) := by
  induction t generalizing depth with
  | nil =>
    obtain ⟨front, hfront, hover⟩ := h
    rw [List.prefix_nil.1 hfront] at hover
    exact absurd hover (not_overcloses_nil depth)
  | cons x t ih =>
    by_cases hx : Overcloses depth [x]
    · have hclose : x = '}' := by
        by_contra hne
        simp [Overcloses, hne] at hx
      subst hclose
      refine ⟨[], t, rfl, fun mid hmid => ?_, hx⟩
      rw [List.prefix_nil.1 hmid]
      exact not_overcloses_nil depth
    · obtain ⟨front, hfront, hover⟩ := h
      cases front with
      | nil => exact absurd hover (not_overcloses_nil depth)
      | cons y front =>
        obtain ⟨rfl, htail⟩ := List.cons_prefix_cons.1 hfront
        obtain ⟨front', rest, ht, hfirst, hlast⟩ :=
          ih ⟨front, htail, (overcloses_cons_iff hx front).1 hover⟩
        refine ⟨y :: front', rest, by rw [ht]; rfl, fun mid hmid => ?_,
          (overcloses_cons_iff hx _).2 hlast⟩
        cases mid with
        | nil => exact not_overcloses_nil depth
        | cons z mid =>
          obtain ⟨rfl, htail⟩ := List.cons_prefix_cons.1 hmid
          rw [overcloses_cons_iff hx]
          exact hfirst mid htail

/-- Fronts of two texts together are fronts of the first, or end in the second. -/
theorem open_append (hn : n + t.count '}' = depth + t.count '{')
    (ht : ∀ front, front <+: t → ¬Overcloses depth front)
    (hu : ∀ front, front <+: u → ¬Overcloses n front) :
    ∀ front, front <+: t ++ u → ¬Overcloses depth front := by
  intro front hfront
  rcases List.prefix_or_prefix_of_prefix hfront (List.prefix_append t u) with h | ⟨rest, rfl⟩
  · exact ht front h
  · rw [overcloses_append_iff hn]
    exact hu rest ((List.prefix_append_right_inj t).1 hfront)

/-- A body ends within some lines, or none of their fronts overcloses it. -/
theorem endsBody_or_open (depth : Nat) (lines : List Text) :
    (∃ earlier before after later, lines = earlier ++ (before ++ '}' :: after) :: later ∧
      EndsBody depth earlier before after) ∨
    ∀ front, front <+: lines.flatMap code → ¬Overcloses depth front := by
  induction lines generalizing depth with
  | nil =>
    refine .inr fun front hfront => ?_
    rw [List.prefix_nil.1 hfront]
    exact not_overcloses_nil depth
  | cons line lines ih =>
    by_cases hline : ∀ front, front <+: code line → ¬Overcloses depth front
    · have hcount := add_count_of_not_overcloses (hline _ List.prefix_rfl)
      rcases ih (depth + (code line).count '{' - (code line).count '}') with
        ⟨earlier, before, after, later, rfl, h⟩ | hopen
      · refine .inl ⟨line :: earlier, before, after, later, rfl, h.visible, ?_, ?_⟩
        · rw [List.flatMap_cons, List.append_assoc]
          exact open_append hcount hline h.first
        · rw [List.flatMap_cons, List.append_assoc, List.append_assoc,
            overcloses_append_iff hcount, ← List.append_assoc]
          exact h.overcloses
      · exact .inr (open_append hcount hline hopen)
    · simp only [not_forall, not_not] at hline
      obtain ⟨front, hfront, hover⟩ := hline
      obtain ⟨before, rest, hcode, hfirst, hlast⟩ := exists_first ⟨front, hfront, hover⟩
      obtain ⟨comment, hcomment⟩ := code_front line
      rw [hcode, List.append_assoc, List.cons_append] at hcomment
      refine .inl ⟨[], before, rest ++ comment, lines, by rw [hcomment]; rfl, ?_, hfirst, hlast⟩
      rw [hcomment, hcode]
      exact (List.prefix_append_right_inj _).2 (List.cons_prefix_cons.2 ⟨rfl, List.nil_prefix⟩)

/-- **A body ends at the first brace that overcloses it**, counted over all lines fed so far up to
their comments. The lines before the one with this brace lead on, and that one gives the function
and what it has behind the brace. The function keeps the lines, and the text in front of the brace,
each trimmed, and without those that are blank or comments; and the draft is idle again, so further
lines are read as a new declaration. If there is no such brace, all lines lead on. -/
theorem feedAll_endsBody (name : String) (parameters : List Parameter) (lines : List Text) :
    ((∃ earlier before after later, lines = earlier ++ (before ++ '}' :: after) :: later ∧
        EndsBody 0 earlier before after) ∨
      ∀ front, front <+: lines.flatMap code → ¬Overcloses 0 front) ∧
    (∀ earlier before after later, lines = earlier ++ (before ++ '}' :: after) :: later →
      EndsBody 0 earlier before after →
      (inBody name parameters [] 0).feedAll lines =
        (List.replicate earlier.length ⟨.ok none, []⟩ ++
          ⟨.ok (some ⟨name, parameters, kept (earlier ++ [before])⟩), after⟩ ::
            (idle.feedAll later).1, (idle.feedAll later).2)) ∧
    ((∀ front, front <+: lines.flatMap code → ¬Overcloses 0 front) →
      (inBody name parameters [] 0).feedAll lines =
        (List.replicate lines.length ⟨.ok none, []⟩, inBody name parameters (kept lines)
          ((lines.flatMap code).count '{' - (lines.flatMap code).count '}'))) := by
  refine ⟨endsBody_or_open 0 lines, ?_, fun h => ?_⟩
  · rintro earlier before after later rfl h
    rw [List.append_cons, feedAll_append, feedAll_of_endsBody h]
    simp
  · have hcount := add_count_of_not_overcloses (h _ List.prefix_rfl)
    rw [Nat.zero_add] at hcount
    exact feedAll_of_open h (hcount.trans (Nat.zero_add _).symm) []

/-- A function of its own, with a brace in a comment, and two lines that are not kept. -/
def nested : List Text :=
  [" Func g() \x7b".toList, "Return 1 // \x7d".toList, " \x7d // end".toList, "// \x7d".toList,
    "".toList]

theorem endsBody_nested : EndsBody 0 nested " Return g() ".toList "; List".toList := by
  have hfirst : ∀ front ∈ (nested.flatMap code ++ " Return g() ".toList).inits,
      ¬Overcloses 0 front := by
    decide
  exact ⟨by decide, fun front hfront => hfirst front ((List.mem_inits _ _).2 hfront), by decide⟩

theorem feedAll_endsBody_nested :
    EndsBody 0 nested " Return g() ".toList "; List".toList ∧
      (inBody "f" [] [] 0).feedAll (nested ++ [" Return g() \x7d; List".toList]) =
        (List.replicate 5 ⟨.ok none, []⟩ ++
          [⟨.ok (some ⟨"f", [], ["Func g() \x7b", "Return 1 // \x7d", "\x7d // end",
            "Return g()"]⟩), "; List".toList⟩], idle) := by
  obtain ⟨-, hends, -⟩ := feedAll_endsBody "f" [] (nested ++ [" Return g() \x7d; List".toList])
  exact ⟨endsBody_nested, hends nested _ _ [] rfl endsBody_nested⟩

end QuantityCalc.Draft
