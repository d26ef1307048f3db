import QuantityCalc.Proofs.Function.RoundTrip

/-!
# Headings in pieces

A heading is a sequence of words with white space between them (`Draft.Spells`). It may be cut into
lines between any two words, as long as a unit stays on the line of its parameter: then its pieces
lead to the same draft as the whole heading (`Draft.feedAll_heading`). A unit at the front of a line
is refused, because the name of a parameter and its unit are read at once.

`Draft.Takes` says what each word of a heading does to a draft if the words are taken one by one.
A line leads to the draft that its words lead to (`Draft.readsOn_texts`), by induction over the
words.
-/

namespace QuantityCalc

open Text

/-- A word of a heading behind the name of the function, or white space between two words. -/
inductive HeadingWord where
  /-- White space. -/
  | blanks (t : Text)
  /-- A parenthesis, a comma or the opening brace. -/
  | mark (x : Char)
  /-- The name of a parameter. -/
  | name (word : Text)
  /-- A unit in brackets. -/
  | unit (inside : Text)

/-- A parameter as it is written: its name, and what stands in the brackets behind it. -/
structure WrittenParameter where
  name : Text
  inside? : Option Text

namespace HeadingWord

/-- The text of a word. -/
def text : HeadingWord → Text
  | blanks t => t
  | mark x => [x]
  | name word => word
  | unit inside => '[' :: (inside ++ [']'])

/-- Whether a word is more than white space. -/
def isToken : HeadingWord → Bool
  | blanks _ => false
  | _ => true

/-- The text of words. -/
def texts (words : List HeadingWord) : Text := words.flatMap text

/-- Whether words start with a unit, apart from white space. -/
def startsWithUnit : List HeadingWord → Bool
  | blanks _ :: words => startsWithUnit words
  | unit _ :: _ => true
  | _ => false

end HeadingWord

namespace WrittenParameter

/-- The words of a parameter. -/
def words (p : WrittenParameter) : List HeadingWord :=
  .name p.name :: (p.inside?.map HeadingWord.unit).toList

/-- The parameter that is written. -/
def parameter (p : WrittenParameter) : Parameter :=
  ⟨.ofList p.name, p.inside?.map fun inside => .ofList (trim inside)⟩

/-- The name is a name, and a unit stands in the brackets. -/
structure IsValid (p : WrittenParameter) : Prop where
  name : Name.scan? p.name = some (p.name, [])
  unit : ∀ inside ∈ p.inside?, ']' ∉ inside ∧ UnitExpr.validate (trim inside) = .ok ()

end WrittenParameter

namespace Draft

open HeadingWord

/-- The words of a heading behind the name of the function, up to the brace of the body. -/
def headingWords (ps : List WrittenParameter) : List HeadingWord :=
  .mark '(' :: ([.mark ','].intercalate (ps.map WrittenParameter.words) ++ [.mark ')', .mark '{'])

/-- A text with the keyword and the name, and words behind it, are the heading of a function. -/
structure Spells (name : String) (ps : List WrittenParameter) (opening : Text)
    (ws : List HeadingWord) : Prop where
  opening : ∃ lead keyword gap, opening = lead ++ (keyword ++ (gap ++ name.toList)) ∧
    (∀ x ∈ lead, isBlank x = true) ∧ keyword.map Char.toLower = "func".toList ∧
    (∀ x ∈ gap, isBlank x = true) ∧ gap ≠ []
  name : Name.scan? name.toList = some (name.toList, [])
  tokens : ws.filter isToken = headingWords ps
  blanks : ∀ t, .blanks t ∈ ws → ∀ x ∈ t, isBlank x = true
  valid : ∀ p ∈ ps, p.IsValid
  nodup : (ps.map fun p => p.parameter.name).Nodup

/-- What a word of a heading does to a draft. -/
inductive Takes : Draft → HeadingWord → Draft → Prop
  | blanks {d t} (h : ∀ x ∈ t, isBlank x = true) : Takes d (.blanks t) d
  | parameterList {name} : Takes (.named name) (.mark '(') (.listed name)
  | noParameters {name} : Takes (.listed name) (.mark ')') (.headed name [])
  | first {name word} (h : Name.scan? word = some (word, [])) :
    Takes (.listed name) (.name word) (.separated name [⟨.ofList word, none⟩])
  | name {name parameters word} (h : Name.scan? word = some (word, []))
    (hnew : String.ofList word ∉ parameters.map Parameter.name) :
    Takes (.awaiting name parameters) (.name word)
      (.separated name (parameters ++ [⟨.ofList word, none⟩]))
  | unit {name parameters n inside} (hnot : ']' ∉ inside)
    (h : UnitExpr.validate (trim inside) = .ok ()) :
    Takes (.separated name (parameters ++ [⟨n, none⟩])) (.unit inside)
      (.separated name (parameters ++ [⟨n, some (.ofList (trim inside))⟩]))
  | comma {name parameters} :
    Takes (.separated name parameters) (.mark ',') (.awaiting name parameters)
  | close {name parameters} :
    Takes (.separated name parameters) (.mark ')') (.headed name parameters)
  | body {name parameters} :
    Takes (.headed name parameters) (.mark '{') (.inBody name parameters [] 0)

/-- What words do to a draft, one after another. -/
inductive TakesAll : Draft → List HeadingWord → Draft → Prop
  | nil (d) : TakesAll d [] d
  | cons {d w d' ws d''} (hw : Takes d w d') (h : TakesAll d' ws d'') : TakesAll d (w :: ws) d''

variable {d d' d'' : Draft} {w : HeadingWord} {ws ws' : List HeadingWord} {name : String}
  {parameters : List Parameter} {ps : List WrittenParameter} {p : WrittenParameter}

/-! ## Words one by one -/

theorem TakesAll.append (h : TakesAll d ws d') (h' : TakesAll d' ws' d'') :
    TakesAll d (ws ++ ws') d'' := by
  induction h with
  | nil => exact h'
  | cons hw _ ih => exact .cons hw (ih h')

theorem exists_of_takesAll_append (h : TakesAll d (ws ++ ws') d'') :
    ∃ d', TakesAll d ws d' ∧ TakesAll d' ws' d'' := by
  induction ws generalizing d with
  | nil => exact ⟨d, .nil d, h⟩
  | cons w ws ih =>
    cases h with
    | cons hw h =>
      obtain ⟨d', hws, hws'⟩ := ih h
      exact ⟨d', .cons hw hws, hws'⟩

/-- White space may stand anywhere. -/
theorem takesAll_of_filter (hblanks : ∀ t, .blanks t ∈ ws → ∀ x ∈ t, isBlank x = true)
    (h : TakesAll d (ws.filter isToken) d') : TakesAll d ws d' := by
  induction ws generalizing d with
  | nil => exact h
  | cons w ws ih =>
    have ih {d : Draft} := ih (d := d) fun t ht => hblanks t (List.mem_cons_of_mem w ht)
    cases htoken : w.isToken with
    | false =>
      rw [List.filter_cons_of_neg (by simp [htoken])] at h
      cases w with
      | blanks t => exact .cons (.blanks (hblanks t List.mem_cons_self)) (ih h)
      | _ => cases htoken
    | true =>
      rw [List.filter_cons_of_pos htoken] at h
      cases h with
      | cons hw h => exact .cons hw (ih h)

theorem takesAll_words (hp : p.IsValid) (h : Takes d (.name p.name)
    (.separated name (parameters ++ [⟨.ofList p.name, none⟩]))) :
    TakesAll d p.words (.separated name (parameters ++ [p.parameter])) := by
  obtain ⟨word, inside?⟩ := p
  cases inside? with
  | none => exact .cons h (.nil _)
  | some inside =>
    obtain ⟨hnot, hvalid⟩ := hp.unit inside rfl
    exact .cons h (.cons (.unit hnot hvalid) (.nil _))

theorem takesAll_intercalate (hvalid : ∀ q ∈ p :: ps, q.IsValid)
    (hnodup : ((parameters ++ (p :: ps).map WrittenParameter.parameter).map Parameter.name).Nodup)
    (h : Takes d (.name p.name) (.separated name (parameters ++ [⟨.ofList p.name, none⟩]))) :
    TakesAll d ([.mark ','].intercalate ((p :: ps).map WrittenParameter.words))
      (.separated name (parameters ++ (p :: ps).map WrittenParameter.parameter)) := by
  induction ps generalizing d parameters p with
  | nil => simpa [List.intercalate] using takesAll_words (hvalid p List.mem_cons_self) h
  | cons q ps ih =>
    have hsplit : parameters ++ (p :: q :: ps).map WrittenParameter.parameter =
        (parameters ++ [p.parameter]) ++ (q :: ps).map WrittenParameter.parameter := by simp
    rw [hsplit] at hnodup ⊢
    have hnew : q.parameter.name ∉ (parameters ++ [p.parameter]).map Parameter.name := by
      rw [List.map_append, List.nodup_append] at hnodup
      exact fun hmem => hnodup.2.2 _ hmem _ (by simp) rfl
    have hq := hvalid q (by simp)
    have hrest := ih (fun r hr => hvalid r (List.mem_cons_of_mem p hr)) hnodup (.name hq.name hnew)
    exact (takesAll_words (hvalid p List.mem_cons_self) h).append (.cons .comma hrest)

/-- **The words of a heading lead to the body.** -/
theorem takesAll_headingWords (hvalid : ∀ p ∈ ps, p.IsValid)
    (hnodup : (ps.map fun p => p.parameter.name).Nodup) :
    TakesAll (.named name) (headingWords ps)
      (.inBody name (ps.map WrittenParameter.parameter) [] 0) := by
  refine .cons .parameterList ?_
  cases ps with
  | nil => exact .cons .noParameters (.cons .body (.nil _))
  | cons p ps =>
    have hfirst : Takes (.listed name) (.name p.name)
        (.separated name ([] ++ [⟨.ofList p.name, none⟩])) :=
      .first (hvalid p List.mem_cons_self).name
    have hlist := takesAll_intercalate hvalid (by simpa [Function.comp_def] using hnodup) hfirst
    exact hlist.append (.cons .close (.cons .body (.nil _)))

/-! ## Words read at once -/

theorem texts_cons (w : HeadingWord) (ws : List HeadingWord) :
    texts (w :: ws) = w.text ++ texts ws := rfl

theorem trimStart_append_of_blanks {t : Text} (h : ∀ x ∈ t, isBlank x = true) (u : Text) :
    trimStart (t ++ u) = trimStart u :=
  List.dropWhile_append_of_pos h

/-- Only the unit of a parameter that has none yet can come first. -/
theorem eq_separated_of_startsWithUnit (h : TakesAll d ws d') (hunit : startsWithUnit ws = true) :
    ∃ name parameters n, d = .separated name (parameters ++ [⟨n, none⟩]) := by
  induction h with
  | nil => cases hunit
  | cons hw _ ih =>
    cases hw with
    | blanks => exact ih hunit
    | unit => exact ⟨_, _, _, rfl⟩
    | _ => cases hunit

/-- A word that is not a name does not go on with the name in front of it. -/
theorem isChar_of_takesAll (hname : ∀ word d', ¬Takes d (.name word) d') (h : TakesAll d ws d') :
    ∀ x ∈ (texts ws).head?, Name.isChar x = false := by
  induction h with
  | nil => nofun
  | cons hw _ ih =>
    cases hw with
    | @blanks _ t hblanks =>
      cases t with
      | nil => exact ih hname
      | cons x t =>
        rintro _ ⟨⟩
        exact Name.isChar_of_isBlank (hblanks x List.mem_cons_self)
    | first h => exact absurd (.first h) (hname _ _)
    | name h hnew => exact absurd (.name h hnew) (hname _ _)
    | _ =>
      rintro _ ⟨⟩
      decide

/-- Without a unit at the front, no bracket follows a parameter. -/
theorem ne_bracket_of_takesAll (hname : ∀ word d', ¬Takes d (.name word) d') (h : TakesAll d ws d')
    (hunit : startsWithUnit ws = false) : ∀ x ∈ (trimStart (texts ws)).head?, x ≠ '[' := by
  induction h with
  | nil => nofun
  | cons hw _ ih =>
    cases hw with
    | blanks hblanks =>
      rw [texts_cons, text, trimStart_append_of_blanks hblanks]
      exact ih hname hunit
    | first h => exact absurd (.first h) (hname _ _)
    | name h hnew => exact absurd (.name h hnew) (hname _ _)
    | unit => cases hunit
    | _ =>
      rintro _ ⟨⟩
      decide

/-- What words do to a draft is what their text does to it. A unit at their front is read with the
name of its parameter, so what is behind it counts. -/
structure LeadsOn (d : Draft) (ws : List HeadingWord) (d' : Draft) : Prop where
  reads : startsWithUnit ws = false → ReadsOn d (trimStart (texts ws)) d' []
  unit : ∀ {name parameters n}, startsWithUnit ws = true →
    d = .separated name (parameters ++ [⟨n, none⟩]) →
    ∃ inside after, trimStart (texts ws) = '[' :: (inside ++ ']' :: after) ∧ ']' ∉ inside ∧
      UnitExpr.validate (trim inside) = .ok () ∧
      ReadsOn (.separated name (parameters ++ [⟨n, some (.ofList (trim inside))⟩]))
        (trimStart after) d' []

/-- A mark is read by itself. -/
theorem readsOn_of_takes {x : Char} (h : Takes d (.mark x) d') (t : Text) :
    trimStart (x :: t) = x :: t ∧ ReadsOn d (x :: t) d' (trimStart t) := by
  cases h with
  | parameterList => exact ⟨List.dropWhile_cons_of_neg (by decide), readsOn_listing _ t⟩
  | noParameters => exact ⟨List.dropWhile_cons_of_neg (by decide), readsOn_unlisted _ t⟩
  | comma => exact ⟨List.dropWhile_cons_of_neg (by decide), readsOn_comma _ _ t⟩
  | close => exact ⟨List.dropWhile_cons_of_neg (by decide), readsOn_close _ _ t⟩
  | body => exact ⟨List.dropWhile_cons_of_neg (by decide), readsOn_brace _ _ t⟩

/-- No unit follows a mark. -/
theorem startsWithUnit_of_takes {x : Char} (hw : Takes d (.mark x) d') (h : TakesAll d' ws d'') :
    startsWithUnit ws = false := by
  rw [Bool.eq_false_iff]
  intro hunit
  obtain ⟨name, parameters, n, rfl⟩ := eq_separated_of_startsWithUnit h hunit
  cases hw

theorem leadsOn_mark {x : Char} (hw : Takes d (.mark x) d') (h : TakesAll d' ws d'')
    (ih : LeadsOn d' ws d'') : LeadsOn d (.mark x :: ws) d'' := by
  obtain ⟨htrim, hreads⟩ := readsOn_of_takes hw (texts ws)
  refine ⟨fun _ => ?_, nofun⟩
  rw [texts_cons, text, List.singleton_append, htrim]
  exact hreads.trans (ih.reads (startsWithUnit_of_takes hw h))

theorem not_takes_name (name : String) (parameters : List Parameter) (word : Text) (next : Draft) :
    ¬Takes (.separated name parameters) (.name word) next := by
  rintro ⟨⟩

/-- **The name of a parameter is read together with its unit**, if it has one. -/
theorem readsOn_awaiting {word : Text} (hword : Name.scan? word = some (word, []))
    (hnew : String.ofList word ∉ parameters.map Parameter.name)
    (h : TakesAll (.separated name (parameters ++ [⟨.ofList word, none⟩])) ws d')
    (ih : LeadsOn (.separated name (parameters ++ [⟨.ofList word, none⟩])) ws d') :
    ReadsOn (.awaiting name parameters) (word ++ texts ws) d' [] := by
  have hname (other : Text) (next : Draft) := not_takes_name name
    (parameters ++ [⟨.ofList word, none⟩]) other next
  have hchar := isChar_of_takesAll hname h
  obtain ⟨x, t, rfl⟩ := List.exists_cons_of_ne_nil (Name.eq_append_of_scan? hword).2
  have hover := isOver_of_isStart (Name.isStart_of_scan? hword x rfl) (t ++ texts ws)
  cases hunit : startsWithUnit ws with
  | false =>
    have hbracket := ne_bracket_of_takesAll hname h hunit
    have hone : ReadsOn (.awaiting name parameters) (x :: t ++ texts ws)
        (.separated name (parameters ++ [⟨.ofList (x :: t), none⟩])) (trimStart (texts ws)) := by
      refine readsOn_of_step hover nofun fun c hc => ?_
      obtain ⟨d, hadd, hd⟩ := addParameter_of_parameter name hnew
        (parameter_of_name hword hchar hbracket hc)
      exact ⟨d, hadd, by rw [hd, trimStart_trimStart]⟩
    exact hone.trans (ih.reads hunit)
  | true =>
    obtain ⟨inside, after, hbracket, hnot, hvalid, hreads⟩ := ih.unit hunit rfl
    refine ReadsOn.trans (readsOn_of_step hover nofun fun c hc => ?_) hreads
    obtain ⟨d, hadd, hd⟩ := addParameter_of_parameter name hnew
      (parameter_of_unit hword hchar hbracket hnot hvalid hc)
    exact ⟨d, hadd, by rw [hd]⟩

theorem readsOn_of_takes_name {word : Text} (hw : Takes d (.name word) d')
    (h : TakesAll d' ws d'') (ih : LeadsOn d' ws d'') :
    ReadsOn d (trimStart (word ++ texts ws)) d'' [] := by
  have hword : Name.scan? word = some (word, []) := by cases hw <;> assumption
  obtain ⟨x, t, rfl⟩ := List.exists_cons_of_ne_nil (Name.eq_append_of_scan? hword).2
  have hstart := Name.isStart_of_scan? hword x rfl
  rw [List.cons_append, trimStart_of_isStart hstart]
  cases hw with
  | first => exact readsOn_listed hstart (readsOn_awaiting hword List.not_mem_nil h ih)
  | name _ hnew => exact readsOn_awaiting hword hnew h ih

/-- **Words lead on as they do one by one.** -/
theorem leadsOn_of_takesAll (h : TakesAll d ws d') : LeadsOn d ws d' := by
  induction h with
  | nil d => exact ⟨fun _ c hc => ⟨c, hc, rfl⟩, nofun⟩
  | @cons d w next ws d' hw h ih =>
    cases w with
    | blanks t =>
      cases hw with
      | blanks hblanks =>
        have htext : trimStart (texts (.blanks t :: ws)) = trimStart (texts ws) :=
          trimStart_append_of_blanks hblanks _
        exact ⟨htext ▸ ih.reads, htext ▸ ih.unit⟩
    | mark x => exact leadsOn_mark hw h ih
    | name word =>
      exact ⟨fun _ => readsOn_of_takes_name hw h ih, nofun⟩
    | unit inside =>
      cases hw with
      | @unit name parameters n _ hnot hvalid =>
        have hunit : startsWithUnit ws = false := by
          rw [Bool.eq_false_iff]
          intro hunit
          obtain ⟨name', parameters', n', heq⟩ := eq_separated_of_startsWithUnit h hunit
          simp at heq
        refine ⟨nofun, fun {name' parameters' n'} _ heq => ?_⟩
        obtain ⟨rfl, hlast⟩ := Draft.separated.inj heq
        obtain ⟨rfl, hn⟩ := List.append_inj' hlast rfl
        cases hn
        refine ⟨inside, texts ws, ?_, hnot, hvalid, ih.reads hunit⟩
        have htext : texts (.unit inside :: ws) = '[' :: (inside ++ ']' :: texts ws) := by
          simp [texts_cons, text]
        rw [htext]
        exact List.dropWhile_cons_of_neg (by decide)

/-! ## Pieces -/

variable {pieces : List (List HeadingWord)}

theorem feed_texts (h : TakesAll d ws d') (hunit : startsWithUnit ws = false) :
    d.feed (texts ws) = (⟨.ok none, []⟩, d') :=
  feed_of_readsOn ((leadsOn_of_takesAll h).reads hunit)

theorem feedAll_texts (h : TakesAll d pieces.flatten d')
    (hunit : ∀ piece ∈ pieces, startsWithUnit piece = false) :
    d.feedAll (pieces.map texts) = (List.replicate pieces.length ⟨.ok none, []⟩, d') := by
  induction pieces generalizing d with
  | nil =>
    cases h
    rfl
  | cons piece pieces ih =>
    obtain ⟨next, hpiece, hpieces⟩ := exists_of_takesAll_append h
    have hrest := ih hpieces fun p hp => hunit p (List.mem_cons_of_mem piece hp)
    rw [List.map_cons, feedAll_cons, feed_texts hpiece (hunit piece List.mem_cons_self), hrest]
    rfl

/-- **A unit without its parameter is refused**, and the declaration is given up. -/
theorem feed_texts_of_startsWithUnit (h : TakesAll d ws d') (hunit : startsWithUnit ws = true) :
    d.feed (texts ws) = (⟨.error (.malformed (bytes ((texts ws).takeWhile isBlank)) .parameterEnd),
      trimStart (texts ws)⟩, idle) := by
  obtain ⟨name, parameters, n, rfl⟩ := eq_separated_of_startsWithUnit h hunit
  obtain ⟨inside, after, hbracket, -⟩ := (leadsOn_of_takesAll h).unit hunit rfl
  have hover : isOver (trimStart (Cursor.start (texts ws)).rest) = false := by
    rw [Cursor.rest_start, hbracket]
    rfl
  have hrest : (Cursor.start (texts ws)).skipBlanks.rest = '[' :: (inside ++ ']' :: after) :=
    hbracket
  have hposition : (Cursor.start (texts ws)).skipBlanks.position =
      bytes ((texts ws).takeWhile isBlank) := by
    have hsplit : texts ws = (texts ws).takeWhile isBlank ++ trimStart (texts ws) :=
      List.takeWhile_append_dropWhile.symm
    exact (Cursor.position_moveTo (c := .start (texts ws)) hsplit).trans (Nat.zero_add _)
  rw [feed, readOn_heading hover (by simp)]
  simp only [step, Cursor.eat?_other hrest (show ',' ≠ '[' by decide),
    Cursor.eat?_other hrest (show ')' ≠ '[' by decide), faultAt, hposition, Cursor.rest_skipBlanks,
    Cursor.rest_start]

/-- The text with the keyword and the name leads to the words behind it. -/
theorem feed_opening {opening : Text} {first : List HeadingWord} (h : Spells name ps opening ws)
    (hfirst : TakesAll (.named name) first d) :
    idle.feed (opening ++ texts first) = (⟨.ok none, []⟩, d) := by
  obtain ⟨lead, keyword, gap, rfl, hlead, hkeyword, hgap, hne⟩ := h.opening
  have hname (word : Text) (next : Draft) : ¬Takes (.named name) (.name word) next := by
    rintro ⟨⟩
  have hunit : startsWithUnit first = false := by
    rw [Bool.eq_false_iff]
    intro hunit
    obtain ⟨_, _, _, heq⟩ := eq_separated_of_startsWithUnit hfirst hunit
    cases heq
  have hopening := (readsOn_opening hkeyword hgap hne h.name
    (isChar_of_takesAll hname hfirst)).trans ((leadsOn_of_takesAll hfirst).reads hunit)
  have htrim : trimStart (lead ++ (keyword ++ (gap ++ name.toList)) ++ texts first) =
      keyword ++ (gap ++ (name.toList ++ texts first)) := by
    have hword := scan?_of_toLower hkeyword
    obtain ⟨x, t, rfl⟩ := List.exists_cons_of_ne_nil (Name.eq_append_of_scan? hword).2
    have hstart := Name.isStart_of_scan? hword x rfl
    simp only [List.append_assoc]
    rw [trimStart_append_of_blanks hlead]
    exact trimStart_of_isStart hstart _
  exact feed_of_readsOn (htrim.symm ▸ hopening)

/-- **Headings may be cut into lines**, as long as a unit stays on the line of its parameter: the
lines lead to the same draft as the whole heading, which has the name and the parameters that are
written. The first line that starts with a unit is refused, and the declaration is given up. -/
theorem feedAll_heading {opening : Text} {first : List HeadingWord}
    (h : Spells name ps opening (first ++ pieces.flatten)) :
    idle.feed (opening ++ texts (first ++ pieces.flatten)) =
        (⟨.ok none, []⟩, .inBody name (ps.map WrittenParameter.parameter) [] 0) ∧
      ((∀ piece ∈ pieces, startsWithUnit piece = false) →
        idle.feedAll ((opening ++ texts first) :: pieces.map texts) =
          (List.replicate (pieces.length + 1) ⟨.ok none, []⟩,
            .inBody name (ps.map WrittenParameter.parameter) [] 0)) ∧
      ∀ before piece after, pieces = before ++ piece :: after →
        (∀ piece ∈ before, startsWithUnit piece = false) → startsWithUnit piece = true →
        idle.feedAll ((opening ++ texts first) :: (before ++ [piece]).map texts) =
          (List.replicate (before.length + 1) ⟨.ok none, []⟩ ++
            [⟨.error (.malformed (bytes ((texts piece).takeWhile isBlank)) .parameterEnd),
              trimStart (texts piece)⟩], idle) := by
  have hall : TakesAll (.named name) (first ++ pieces.flatten)
      (.inBody name (ps.map WrittenParameter.parameter) [] 0) :=
    takesAll_of_filter h.blanks (h.tokens ▸ takesAll_headingWords h.valid h.nodup)
  obtain ⟨d, hfirst, hpieces⟩ := exists_of_takesAll_append hall
  have hopening := feed_opening h hfirst
  refine ⟨feed_opening h hall, fun hunit => ?_, ?_⟩
  · rw [feedAll_cons, hopening, feedAll_texts hpieces hunit]
    rfl
  · rintro before piece after rfl hbefore hunit
    rw [List.flatten_append, List.flatten_cons] at hpieces
    obtain ⟨d', hbeforeTaken, hrest⟩ := exists_of_takesAll_append hpieces
    obtain ⟨d'', hpiece, -⟩ := exists_of_takesAll_append hrest
    rw [feedAll_cons, hopening, List.map_append, feedAll_append, feedAll_texts hbeforeTaken hbefore]
    simp only [List.map_cons, List.map_nil, feedAll_cons, feed_texts_of_startsWithUnit hpiece hunit]
    rfl

/-- The parameters of a heading: the first one has a unit, the second one has none. -/
def sides : List WrittenParameter := [⟨['a'], some ['m']⟩, ⟨['b'], none⟩]

/-- The words of the heading. -/
def sidesWords : List HeadingWord :=
  [.mark '(', .name ['a'], .blanks [' '], .unit ['m'], .mark ',', .blanks [' '], .name ['b'],
    .mark ')', .blanks [' '], .mark '{']

theorem spells_sides : Spells "f" sides "Func f".toList sidesWords where
  opening := ⟨[], "Func".toList, [' '], by decide, List.forall_mem_nil _, by decide,
    List.forall_mem_singleton.2 (by decide), by decide⟩
  name := by decide
  tokens := rfl
  blanks := by
    intro t ht x hx
    have heq : t = [' '] := by simpa [sidesWords] using ht
    subst heq
    rw [List.mem_singleton.1 hx]
    decide
  valid := by
    have ha : WrittenParameter.IsValid ⟨['a'], some ['m']⟩ := by
      refine ⟨by decide, ?_⟩
      rintro inside ⟨⟩
      exact ⟨by decide, rfl⟩
    have hb : WrittenParameter.IsValid ⟨['b'], none⟩ := ⟨by decide, nofun⟩
    simp [sides, ha, hb]
  nodup := by decide

theorem feedAll_heading_sides :
    Spells "f" sides "Func f".toList sidesWords ∧
      idle.feedAll ["Func f(".toList, "a [m]".toList, ", b) \x7b".toList] =
        (List.replicate 3 ⟨.ok none, []⟩, .inBody "f" [⟨"a", some "m"⟩, ⟨"b", none⟩] [] 0) := by
  have hcut : Spells "f" sides "Func f".toList
      ([.mark '('] ++ [[.name ['a'], .blanks [' '], .unit ['m']], sidesWords.drop 4].flatten) :=
    spells_sides
  obtain ⟨-, hlines, -⟩ := feedAll_heading hcut
  have htexts : ["Func f(".toList, "a [m]".toList, ", b) \x7b".toList] =
      ("Func f".toList ++ texts [.mark '(']) ::
        [[.name ['a'], .blanks [' '], .unit ['m']], sidesWords.drop 4].map texts := by decide
  have hparameters : sides.map WrittenParameter.parameter =
      [⟨"a", some "m"⟩, ⟨"b", none⟩] := by decide
  rw [htexts, ← hparameters]
  exact ⟨spells_sides, hlines (by decide)⟩

/-- Cut in front of its unit, a heading is given up. -/
theorem gives_up_before_unit :
    Spells "f" sides "Func f".toList ([.mark '(', .name ['a']] ++ [sidesWords.drop 2].flatten) ∧
      (idle.feed "Func f(a [m], b) \x7b".toList).2 =
        .inBody "f" [⟨"a", some "m"⟩, ⟨"b", none⟩] [] 0 ∧
      (idle.feedAll ["Func f(a".toList, " [m], b) \x7b".toList]).2 = idle :=
  ⟨spells_sides, by decide +kernel, by decide +kernel⟩

end Draft

end QuantityCalc
