import QuantityCalc.Proofs.Function.Legible

/-!
# Writing functions and reading them again

`UserFunction.lines` writes a function as the lines of its declaration. Every function that drafts
read, from whatever texts, is read again from its lines (`Draft.feedAll_lines`): the heading leads
to the body, each line of the body is kept as it is, and the closing brace ends it.
-/

namespace QuantityCalc

open Text

/-- The lines that declare a function: its heading, its body and the closing brace. -/
def UserFunction.lines (f : UserFunction) : List Text :=
  ("Func " ++ f.heading ++ " \x7b").toList :: f.body.map String.toList ++ [['}']]

variable {c d : Cursor} {t rest : Text} {name : String} {parameters : List Parameter}

/-! ## Characters, names and brackets -/

/-- A name is read whole in front of a character that no name has. -/
theorem Lexeme.next_of_name (m : Manner) {word : Text} (hword : Name.scan? word = some (word, []))
    (hrest : ∀ x ∈ rest.head?, Name.isChar x = false) (hc : c.rest = word ++ rest) :
    ∃ d, next m c = (.ok (some (.name word)), d) ∧ d.rest = rest := by
  have hscan := Name.scan?_front hword hrest
  have hfront := Name.isStart_of_scan? hscan
  have htrim : trimStart (word ++ rest) = word ++ rest :=
    trimStart_of_head? fun x hx => Name.isBlank_of_isStart (hfront x hx)
  refine ⟨c.skipBlanks.moveTo rest, ?_, rfl⟩
  simp only [next_eq, Cursor.rest_skipBlanks, hc, htrim, scan?_eq_name_iff.2 hscan]

/-- A text is cut at the first place of a character. -/
theorem Text.cut?_front {x : Char} {before : Text} (h : x ∉ before) (after : Text) :
    cut? x (before ++ x :: after) = some (before, after) := by
  induction before with
  | nil => simp [cut?]
  | cons y before ih =>
    rw [List.mem_cons, not_or] at h
    simp [cut?, (Ne.symm h.1), ih h.2]

theorem isAlpha_of_toLower {x : Char} (h : x.toLower.isAlpha = true) : x.isAlpha = true := by
  unfold Char.toLower at h
  split at h
  · rename_i hupper
    have hx : x.isUpper = true := decide_eq_true hupper
    exact Bool.or_eq_true_iff.2 (.inl hx)
  · exact h

theorem Text.trimStart_of_isStart {x : Char} (h : Name.isStart x = true) (t : Text) :
    trimStart (x :: t) = x :: t :=
  List.dropWhile_cons_of_neg (by simp [Name.isBlank_of_isStart h])

theorem isOver_of_isStart {x : Char} (h : Name.isStart x = true) (t : Text) :
    isOver (x :: t) = false := by
  have hslash : x ≠ '/' := by
    rintro rfl
    exact absurd h (by decide)
  simp [isOver, commentMark, List.isPrefixOf, hslash.symm]

/-- A parameter with a unit is written with the unit in brackets. -/
theorem Parameter.toList_text (name unit : String) : (⟨name, some unit⟩ : Parameter).text.toList =
    name.toList ++ ' ' :: '[' :: (unit.toList ++ [']']) := by
  change (name ++ " [" ++ unit ++ "]").toList = _
  simp

/-- The text of a parameter starts with its name. -/
theorem Parameter.Legible.text_eq_cons {p : Parameter} (hp : p.Legible) :
    ∃ x t, p.text.toList = x :: t ∧ Name.isStart x = true := by
  have hname := hp.name
  obtain ⟨name, unit?⟩ := p
  match hlist : name.toList with
  | [] =>
    rw [hlist] at hname
    cases hname
  | x :: t =>
    have hstart := Name.isStart_of_scan? hname x (by rw [hlist]; rfl)
    cases unit? with
    | none => exact ⟨x, t, hlist, hstart⟩
    | some unit => exact ⟨x, _, by rw [toList_text, hlist, List.cons_append], hstart⟩

namespace Draft

/-- Reads lines one after another: what each of them gives, and the draft behind them. -/
def feedAll (draft : Draft) : List Text → List (Parsed (Option UserFunction)) × Draft
  | [] => ([], draft)
  | t :: texts =>
    let (parsed, draft) := draft.feed t
    let (others, draft) := feedAll draft texts
    (parsed :: others, draft)

variable {draft next : Draft}

theorem feedAll_cons (draft : Draft) (t : Text) (texts : List Text) :
    draft.feedAll (t :: texts) = ((draft.feed t).1 :: ((draft.feed t).2.feedAll texts).1,
      ((draft.feed t).2.feedAll texts).2) := rfl

/-- Texts that are read one after another may be read in two parts. -/
theorem feedAll_append (draft : Draft) (texts texts' : List Text) :
    draft.feedAll (texts ++ texts') = ((draft.feedAll texts).1 ++
      ((draft.feedAll texts).2.feedAll texts').1, ((draft.feedAll texts).2.feedAll texts').2) := by
  induction texts generalizing draft with
  | nil => rfl
  | cons t texts ih => simp only [List.cons_append, feedAll_cons, ih]

/-- **What was read from any texts can be read again.** -/
theorem legible_of_feedAll (hdraft : draft.Legible) (texts : List Text) :
    (draft.feedAll texts).2.Legible ∧
      ∀ parsed ∈ (draft.feedAll texts).1, ∀ f, parsed.value = .ok (some f) → f.Legible := by
  induction texts generalizing draft with
  | nil => exact ⟨hdraft, nofun⟩
  | cons t texts ih =>
    have hfeed := legible_of_readOn draft (.start t) hdraft
    have hrest := ih hfeed.1
    refine ⟨hrest.1, ?_⟩
    rintro parsed (_ | ⟨_, hparsed⟩)
    · exact hfeed.2
    · exact hrest.2 parsed hparsed

/-! ## The heading -/

/-- A text, apart from white space at its front, leads from one draft to another. -/
def ReadsOn (draft : Draft) (t : Text) (next : Draft) (rest : Text) : Prop :=
  ∀ ⦃c⦄, trimStart c.rest = t → ∃ d, trimStart d.rest = rest ∧ draft.readOn c = next.readOn d

/-- One text after another leads from draft to draft. -/
theorem ReadsOn.trans {last : Draft} {rest' : Text} (h : ReadsOn draft t next rest)
    (h' : ReadsOn next rest last rest') : ReadsOn draft t last rest' := by
  intro c hc
  obtain ⟨d, hd, heq⟩ := h hc
  obtain ⟨d', hd', heq'⟩ := h' hd
  exact ⟨d', hd', heq.trans heq'⟩

/-- A text that the next step reads leads to the draft behind the step, unless the draft is in the
body of a function. -/
theorem readsOn_of_step (hover : isOver t = false)
    (hheading : ∀ name parameters body depth, draft ≠ .inBody name parameters body depth)
    (hstep : ∀ c : Cursor, c.rest = t →
      ∃ d, step draft c = (.ok next, d) ∧ trimStart d.rest = rest) : ReadsOn draft t next rest := by
  intro c hc
  obtain ⟨d, hd, hrest⟩ := hstep c.skipBlanks hc
  refine ⟨d, hrest, ?_⟩
  rw [readOn_heading (hc ▸ hover) hheading, hd]

/-- A line that is read to its end leaves nothing. -/
theorem feed_of_readsOn (h : ReadsOn draft (trimStart t) next []) :
    draft.feed t = (⟨.ok none, []⟩, next) := by
  obtain ⟨d, hd, heq⟩ := h (c := .start t) rfl
  rw [feed, heq, readOn_of_over (by rw [hd]; rfl)]

/-- What follows a parameter. -/
inductive EndsParameter : Text → Prop
  | comma (t : Text) : EndsParameter (',' :: t)
  | close (t : Text) : EndsParameter (')' :: t)

/-- **A name that no bracket follows** is a parameter without a unit. -/
theorem parameter_of_name {word : Text} (hword : Name.scan? word = some (word, []))
    (hchar : ∀ x ∈ rest.head?, Name.isChar x = false)
    (hbracket : ∀ x ∈ (trimStart rest).head?, x ≠ '[') (hc : c.rest = word ++ rest) :
    ∃ d, parameter c = (.ok ⟨.ofList word, none⟩, d) ∧ d.rest = trimStart rest := by
  obtain ⟨d, hnext, hd⟩ := Lexeme.next_of_name manner hword hchar hc
  have hblanks : d.skipBlanks.rest = trimStart rest := by rw [Cursor.rest_skipBlanks, hd]
  have heat : d.skipBlanks.eat? ['['] = none := by
    match hrest : trimStart rest with
    | [] =>
      rw [Cursor.eat?, hblanks, hrest]
      rfl
    | x :: t => exact Cursor.eat?_other (hblanks.trans hrest) (hbracket x (by rw [hrest]; rfl)).symm
  refine ⟨d.skipBlanks, ?_, hblanks⟩
  simp only [parameter, hnext, heat]

/-- **A name and a text in brackets** are a parameter with a unit. -/
theorem parameter_of_unit {word inside after : Text} (hword : Name.scan? word = some (word, []))
    (hchar : ∀ x ∈ rest.head?, Name.isChar x = false)
    (hbracket : trimStart rest = '[' :: (inside ++ ']' :: after)) (hnot : ']' ∉ inside)
    (hvalid : UnitExpr.validate (trim inside) = .ok ()) (hc : c.rest = word ++ rest) :
    ∃ d, parameter c = (.ok ⟨.ofList word, some (.ofList (trim inside))⟩, d) ∧ d.rest = after := by
  obtain ⟨d, hnext, hd⟩ := Lexeme.next_of_name manner hword hchar hc
  have hblanks : d.skipBlanks.rest = '[' :: (inside ++ ']' :: after) := by
    rw [Cursor.rest_skipBlanks, hd, hbracket]
  refine ⟨(d.skipBlanks.moveTo (inside ++ ']' :: after)).moveTo after, ?_, rfl⟩
  simp only [parameter, hnext, Cursor.eat?_self hblanks, Cursor.rest_moveTo, cut?_front hnot,
    hvalid]

/-- **A parameter is read from its text.** -/
theorem parameter_text {p : Parameter} (hp : p.Legible) (hrest : EndsParameter rest)
    (hc : c.rest = p.text.toList ++ rest) :
    ∃ d, parameter c = (.ok p, d) ∧ d.rest = rest := by
  obtain ⟨name, unit?⟩ := p
  cases unit? with
  | none =>
    have htrim : trimStart rest = rest := by
      cases hrest <;> exact List.dropWhile_cons_of_neg (by decide)
    have hname : ∀ x ∈ rest.head?, Name.isChar x = false ∧ x ≠ '[' := by
      cases hrest <;> rintro x ⟨⟩ <;> decide
    have hread := parameter_of_name hp.name (fun x hx => (hname x hx).1)
      (htrim.symm ▸ fun x hx => (hname x hx).2) hc
    rwa [htrim, String.ofList_toList] at hread
  | some unit =>
    obtain ⟨hvalid, htrim, hnot⟩ := hp.unit unit rfl
    have htext : c.rest = name.toList ++ ' ' :: '[' :: (unit.toList ++ ']' :: rest) := by
      simp [hc, Parameter.toList_text]
    have hbracket : trimStart (' ' :: '[' :: (unit.toList ++ ']' :: rest)) =
        '[' :: (unit.toList ++ ']' :: rest) :=
      (List.dropWhile_cons_of_pos (by decide)).trans (List.dropWhile_cons_of_neg (by decide))
    have hread := parameter_of_unit hp.name (by rintro x ⟨⟩; decide) hbracket hnot
      (htrim.symm ▸ hvalid) htext
    rwa [htrim, String.ofList_toList, String.ofList_toList] at hread

/-- A parameter that is read goes behind those before it, if its name is new. -/
theorem addParameter_of_parameter (name : String) {p : Parameter}
    (hnew : p.name ∉ parameters.map Parameter.name)
    (h : ∃ d, parameter c = (.ok p, d) ∧ d.rest = rest) :
    ∃ d, addParameter name parameters c = (.ok (.separated name (parameters ++ [p])), d) ∧
      d.rest = rest := by
  obtain ⟨d, hparameter, hd⟩ := h
  have hany : parameters.any (·.name = p.name) = false := by
    rw [List.any_eq_false]
    intro q hq heq
    exact hnew (List.mem_map.2 ⟨q, hq, by simpa using heq⟩)
  refine ⟨d, ?_, hd⟩
  simp only [addParameter, hparameter, hany, Bool.false_eq_true, if_false]

/-- The parameters of a heading as they are written. -/
def written (parameters : List Parameter) : Text :=
  (", ".intercalate (parameters.map Parameter.text)).toList

theorem written_cons_cons (p q : Parameter) (others : List Parameter) :
    written (p :: q :: others) = p.text.toList ++ ',' :: ' ' :: written (q :: others) := by
  simp [written, String.intercalate_cons_cons]

/-- The parameters start with a name, so there is no white space in front of them. -/
theorem written_eq_cons {p : Parameter} (hp : p.Legible) (others : List Parameter) :
    ∃ x t, written (p :: others) = x :: t ∧ Name.isStart x = true := by
  obtain ⟨x, t, htext, hstart⟩ := hp.text_eq_cons
  cases others with
  | nil => exact ⟨x, t, by simp [written, htext], hstart⟩
  | cons q others => exact ⟨x, _, by rw [written_cons_cons, htext, List.cons_append], hstart⟩

/-- A parameter that awaits reading leads to what follows it. -/
theorem readsOn_text {p : Parameter} (hp : p.Legible)
    (hnew : p.name ∉ parameters.map Parameter.name) (hrest : EndsParameter rest) :
    ReadsOn (.awaiting name parameters) (p.text.toList ++ rest)
      (.separated name (parameters ++ [p])) rest := by
  obtain ⟨x, t, htext, hstart⟩ := hp.text_eq_cons
  refine readsOn_of_step (by rw [htext, List.cons_append]; exact isOver_of_isStart hstart _)
    nofun fun c hc => ?_
  obtain ⟨d, hadd, hd⟩ := addParameter_of_parameter name hnew (parameter_text hp hrest hc)
  refine ⟨d, hadd, ?_⟩
  rw [hd]
  cases hrest <;> exact List.dropWhile_cons_of_neg (by decide)

/-- A mark leads from one draft to another. -/
theorem readsOn_mark {x : Char} (hx : x ≠ '/') (hheading : ∀ name parameters body depth,
      draft ≠ .inBody name parameters body depth)
    (hstep : ∀ c : Cursor, c.rest = x :: t → step draft c = (.ok next, c.moveTo t)) :
    ReadsOn draft (x :: t) next (trimStart t) :=
  readsOn_of_step (by simp [isOver, commentMark, List.isPrefixOf, hx.symm]) hheading
    fun _ hc => ⟨_, hstep _ hc, rfl⟩

/-- The parenthesis behind the name opens the list of parameters. -/
theorem readsOn_listing (name : String) (t : Text) :
    ReadsOn (.named name) ('(' :: t) (.listed name) (trimStart t) :=
  readsOn_mark (by decide) nofun fun c hc => by simp only [step, Cursor.eat?_self hc]

/-- The list may be closed at once. -/
theorem readsOn_unlisted (name : String) (t : Text) :
    ReadsOn (.listed name) (')' :: t) (.headed name []) (trimStart t) :=
  readsOn_mark (by decide) nofun fun c hc => by simp only [step, Cursor.eat?_self hc]

/-- The brace behind the heading opens the body. -/
theorem readsOn_brace (name : String) (parameters : List Parameter) (t : Text) :
    ReadsOn (.headed name parameters) ('{' :: t) (.inBody name parameters [] 0) (trimStart t) :=
  readsOn_mark (by decide) nofun fun c hc => by simp only [step, Cursor.eat?_self hc]

/-- Behind a comma a parameter has to follow. -/
theorem readsOn_comma (name : String) (parameters : List Parameter) (t : Text) :
    ReadsOn (.separated name parameters) (',' :: t) (.awaiting name parameters) (trimStart t) :=
  readsOn_mark (by decide) nofun fun c hc => by simp only [step, Cursor.eat?_self hc]

/-- Behind the last parameter the list is closed. -/
theorem readsOn_close (name : String) (parameters : List Parameter) (t : Text) :
    ReadsOn (.separated name parameters) (')' :: t) (.headed name parameters) (trimStart t) :=
  readsOn_mark (by decide) nofun fun c hc => by
    simp only [step, Cursor.eat?_self hc, Cursor.eat?_other hc (show ',' ≠ ')' by decide)]

/-- **Parameters are read up to the end of their list.** -/
theorem readsOn_written {p : Parameter} {others : List Parameter}
    (h : IsHeading name (parameters ++ p :: others)) (t : Text) :
    ReadsOn (.awaiting name parameters) (written (p :: others) ++ ')' :: t)
      (.headed name (parameters ++ p :: others)) (trimStart t) := by
  induction others generalizing p parameters with
  | nil =>
    obtain ⟨hp, hnew⟩ := h.parameter
    have htext : written [p] = p.text.toList := by simp [written]
    rw [htext]
    exact (readsOn_text hp hnew (.close t)).trans (readsOn_close name _ t)
  | cons q others ih =>
    obtain ⟨hp, hnew⟩ := h.parameter
    have hsplit : parameters ++ p :: q :: others = (parameters ++ [p]) ++ q :: others := by simp
    rw [hsplit] at h ⊢
    obtain ⟨x, u, hwritten, hstart⟩ := written_eq_cons h.parameter.1 others
    have hblank : trimStart (' ' :: (written (q :: others) ++ ')' :: t)) =
        written (q :: others) ++ ')' :: t := by
      rw [hwritten]
      exact (List.dropWhile_cons_of_pos (by decide)).trans (trimStart_of_isStart hstart _)
    have hcomma := (readsOn_text hp hnew (.comma _)).trans
      (readsOn_comma name (parameters ++ [p]) (' ' :: (written (q :: others) ++ ')' :: t)))
    rw [hblank] at hcomma
    rw [written_cons_cons, List.append_assoc]
    exact hcomma.trans (ih h)

/-- A list that does not end at once is read as if its first parameter were awaited. -/
theorem readsOn_listed {x : Char} (hx : Name.isStart x = true)
    (h : ReadsOn (.awaiting name []) (x :: t) next rest) :
    ReadsOn (.listed name) (x :: t) next rest := by
  intro c hc
  obtain ⟨d, hd, heq⟩ := h hc
  refine ⟨d, hd, ?_⟩
  have hover : isOver (trimStart c.rest) = false := by
    rw [hc]
    exact isOver_of_isStart hx t
  have hclose : c.skipBlanks.eat? [')'] = none := by
    have hne : ')' ≠ x := by
      rintro rfl
      exact absurd hx (by decide)
    exact Cursor.eat?_other hc hne
  rw [readOn_heading hover (by simp)] at heq
  rw [readOn_heading hover (by simp), ← heq]
  simp only [step, hclose]

/-- **The parameters of a function are read**, also if there are none. -/
theorem readsOn_parameters (h : IsHeading name parameters) (t : Text) :
    ReadsOn (.listed name) (written parameters ++ ')' :: t) (.headed name parameters)
      (trimStart t) := by
  cases parameters with
  | nil =>
    have hwritten : written [] = [] := rfl
    rw [hwritten, List.nil_append]
    exact readsOn_unlisted name t
  | cons p others =>
    obtain ⟨x, u, hwritten, hstart⟩ :=
      written_eq_cons (h.legible p List.mem_cons_self) others
    have hawaiting : ReadsOn (.awaiting name []) (written (p :: others) ++ ')' :: t)
        (.headed name (p :: others)) (trimStart t) := readsOn_written h t
    rw [hwritten, List.cons_append] at hawaiting ⊢
    exact readsOn_listed hstart hawaiting

/-- The keyword is a name, in upper or lower case. -/
theorem scan?_of_toLower {keyword : Text} (h : keyword.map Char.toLower = "func".toList) :
    Name.scan? keyword = some (keyword, []) := by
  refine Name.scan?_of_isAlpha (by rintro rfl; cases h) fun x hx => ?_
  have hletters : "func".toList.all Char.isAlpha = true := by decide
  exact isAlpha_of_toLower (List.all_eq_true.1 hletters _ (h ▸ List.mem_map_of_mem hx))

/-- **The keyword, in any case, and the name** lead to the parameters. -/
theorem readsOn_opening {keyword gap : Text} (hkeyword : keyword.map Char.toLower = "func".toList)
    (hgap : ∀ x ∈ gap, isBlank x = true) (hne : gap ≠ [])
    (hname : Name.scan? name.toList = some (name.toList, []))
    (hrest : ∀ x ∈ rest.head?, Name.isChar x = false) :
    ReadsOn .idle (keyword ++ (gap ++ (name.toList ++ rest))) (.named name) (trimStart rest) := by
  have hword := scan?_of_toLower hkeyword
  have hscan : Name.scan? (name.toList ++ rest) = some (name.toList, rest) :=
    Name.scan?_front hname hrest
  obtain ⟨b, blanks, rfl⟩ := List.exists_cons_of_ne_nil hne
  have hblank : ∀ x ∈ (b :: blanks ++ (name.toList ++ rest)).head?, Name.isChar x = false := by
    rintro x ⟨⟩
    exact Name.isChar_of_isBlank (hgap b List.mem_cons_self)
  obtain ⟨x, word, rfl⟩ := List.exists_cons_of_ne_nil (Name.eq_append_of_scan? hword).2
  have hstart := Name.isStart_of_scan? hword x rfl
  refine readsOn_of_step (isOver_of_isStart hstart _) nofun fun c hc => ?_
  obtain ⟨d, hnext, hd⟩ := Lexeme.next_of_name manner hword hblank hc
  have hblanks : d.skipBlanks.rest = name.toList ++ rest := by
    rw [Cursor.rest_skipBlanks, hd, trimStart, dropWhile_run hgap]
    exact fun y hy => Name.isBlank_of_isStart (Name.isStart_of_scan? hscan y hy)
  refine ⟨d.skipBlanks.moveTo rest, ?_, rfl⟩
  have hlower : String.ofList ((x :: word).map Char.toLower) = "func" := by rw [hkeyword]; rfl
  simp only [step, keyword, hnext, hlower, if_true, hblanks, hscan, String.ofList_toList]

theorem trimStart_written (h : IsHeading name parameters) (t : Text) :
    trimStart (written parameters ++ ')' :: t) = written parameters ++ ')' :: t := by
  cases parameters with
  | nil => exact List.dropWhile_cons_of_neg (by decide)
  | cons p others =>
    obtain ⟨x, u, hwritten, hstart⟩ :=
      written_eq_cons (h.legible p List.mem_cons_self) others
    rw [hwritten]
    exact trimStart_of_isStart hstart _

/-- **The heading of a function leads to its body.** -/
theorem feed_heading {f : UserFunction} (h : IsHeading f.name f.parameters) :
    idle.feed ("Func " ++ f.heading ++ " \x7b").toList =
      (⟨.ok none, []⟩, .inBody f.name f.parameters [] 0) := by
  have htext : ("Func " ++ f.heading ++ " \x7b").toList =
      "Func".toList ++ ([' '] ++ (f.name.toList ++ '(' :: (written f.parameters ++
        ')' :: [' ', '{']))) := by
    simp [UserFunction.heading, written]
  have hopening : ReadsOn .idle ("Func " ++ f.heading ++ " \x7b").toList (.named f.name)
      ('(' :: (written f.parameters ++ ')' :: [' ', '{'])) := by
    rw [htext]
    exact readsOn_opening (by decide) (List.forall_mem_singleton.2 (by decide)) (by decide) h.name
      (by rintro x ⟨⟩; decide)
  have hname := hopening.trans (readsOn_listing f.name _)
  rw [trimStart_written h] at hname
  have htrim : trimStart ("Func " ++ f.heading ++ " \x7b").toList =
      ("Func " ++ f.heading ++ " \x7b").toList := by
    rw [htext]
    exact List.dropWhile_cons_of_neg (by decide)
  exact feed_of_readsOn (htrim.symm ▸ (hname.trans (readsOn_parameters h _)).trans
    (readsOn_brace f.name f.parameters []))

/-! ## The body -/

/-- **A line of a body is kept as it is.** -/
theorem feed_line {line : String} {body : List String} {depth n : Nat} (h : IsLine line)
    (hsplit : splitBody depth line.toList = .inl n) :
    (inBody name parameters body depth).feed line.toList =
      (⟨.ok none, []⟩, .inBody name parameters (body ++ [line]) n) := by
  have htrim := trimStart_trim line.toList
  rw [h.trim] at htrim
  have hover : isOver (trimStart (Cursor.start line.toList).rest) = false := by
    rw [Cursor.rest_start, htrim]
    exact h.isOver
  have hne : line.toList.isEmpty = false := by
    have hover := h.isOver
    simp only [isOver, Bool.or_eq_false_iff] at hover
    exact hover.1
  rw [feed, readOn_inBody hover]
  simp only [Cursor.rest_start, htrim, readBody, hsplit, addLine, h.trim, hne,
    Bool.false_eq_true, if_false, String.ofList_toList]

/-- Lines of the body are kept as they are, as long as the braces do not close it. -/
theorem feedAll_body {lines : List String} {depth n : Nat} (hlines : ∀ line ∈ lines, IsLine line)
    (hopen : openBehind depth lines = some n) (body : List String) :
    (inBody name parameters body depth).feedAll (lines.map String.toList) =
      (List.replicate lines.length ⟨.ok none, []⟩, .inBody name parameters (body ++ lines) n) := by
  induction lines generalizing depth body with
  | nil =>
    cases hopen
    simp [feedAll]
  | cons line lines ih =>
    rw [openBehind] at hopen
    split at hopen
    · rename_i depth' hsplit
      have hline := hlines line List.mem_cons_self
      have hrest := ih (fun l hl => hlines l (List.mem_cons_of_mem _ hl)) hopen (body ++ [line])
      rw [List.map_cons, feedAll_cons, feed_line hline hsplit, hrest]
      simp [List.replicate_succ]
    · cases hopen

/-- The closing brace ends a body. -/
theorem feed_close (name : String) (parameters : List Parameter) (body : List String) :
    (inBody name parameters body 0).feed ['}'] =
      (⟨.ok (some ⟨name, parameters, body⟩), []⟩, idle) := by
  rw [feed, readOn_inBody (by decide)]
  rfl

theorem feedAll_of_legible {f : UserFunction} (h : f.Legible) :
    idle.feedAll f.lines =
      (List.replicate (f.body.length + 1) ⟨.ok none, []⟩ ++ [⟨.ok (some f), []⟩], idle) := by
  rw [UserFunction.lines, List.cons_append, feedAll_cons, feed_heading h.isHeading, feedAll_append,
    feedAll_body h.isBody.isLine h.isBody.openBehind, feedAll_cons, List.nil_append, feed_close]
  simp [feedAll, List.replicate_succ]

variable {texts : List Text} {parsed : Parsed (Option UserFunction)} {f : UserFunction}

/-- **Functions survive the round trip**: a function that was read, from whatever texts, is read
again from its lines. Each of them but the last only leads on, and the last one ends the declaration
and leaves nothing. -/
theorem feedAll_lines (h : parsed ∈ (idle.feedAll texts).1) (hf : parsed.value = .ok (some f)) :
    idle.feedAll f.lines =
      (List.replicate (f.body.length + 1) ⟨.ok none, []⟩ ++ [⟨.ok (some f), []⟩], idle) :=
  have hidle : idle.Legible := trivial
  feedAll_of_legible ((legible_of_feedAll hidle texts).2 parsed h f hf)

/-- A function whose body has a comment with a brace and a function of its own. -/
def area : UserFunction :=
  ⟨"area", [⟨"w", some "m"⟩, ⟨"h", none⟩],
    ["x = w*h // \x7d", "Func g() \x7b 1", "\x7d", "Return x"]⟩

/-- Lines that declare the function. -/
def areaTexts : List Text :=
  ["Func area(w [ m ],".toList, "h) \x7b // sides".toList, "  x = w*h // \x7d".toList,
    "Func g() \x7b 1 ".toList, "\x7d".toList, "Return x \x7d; List".toList]

theorem feedAll_lines_area :
    (∃ parsed ∈ (idle.feedAll areaTexts).1, parsed.value = .ok (some area)) ∧
      idle.feedAll area.lines =
        (List.replicate 5 ⟨.ok none, []⟩ ++ [⟨.ok (some area), []⟩], idle) := by
  have hread : ∃ parsed ∈ (idle.feedAll areaTexts).1,
      parsed.value.toOption = some (some area) := by
    decide +kernel
  obtain ⟨⟨value, rest⟩, hparsed, hvalue⟩ := hread
  cases value with
  | error e => cases hvalue
  | ok f? =>
    cases hvalue
    exact ⟨⟨_, hparsed, rfl⟩, feedAll_lines hparsed rfl⟩

end Draft

end QuantityCalc
