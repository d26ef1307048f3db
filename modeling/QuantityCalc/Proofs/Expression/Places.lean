import QuantityCalc.Proofs.Command.Errors
import QuantityCalc.Proofs.Expression.Located

/-!
# Where an expression is wrong

What is left of an expression is an end of its text, whatever was called on the way. If nothing can
be called but built-in functions, its errors are located in its text (`readsInPlace`). The arguments
of a call and the elements of a list are read as texts of their own, and their errors are shifted by
the bytes in front of them, however deeply they are nested (`Expression.stays_arguments`).

A target unit is an exception. It is read by the reader of unit expressions, which counts in the
text between the brackets, without the white space around it, and its errors are not shifted
(`not_at_malformed_target`).
-/

namespace QuantityCalc

open Session

variable {α : Type} {units : Prop} {I : Session → Prop} {s : Session} {t u rest : Text} {p : Nat}
  {c d : Cursor} {context : ReadingContext}

/-! ## Words -/

/-- The errors among the items of a stream are located in a text. -/
def LocatedItems (units : Prop) (t : Text) (items : List Postfix.Item) : Prop :=
  ∀ e, .error e ∈ items → e.PlacedIn units t

/-- The errors that a round of reading gives are located in a text. -/
def Round.LocatedIn (units : Prop) (t : Text) : Round → Prop
  | .more items _ | .last items => LocatedItems units t items

theorem locatedItems_itemsOf (ops : List Operator) :
    LocatedItems units t (Expression.itemsOf ops) := by
  intro e he
  obtain ⟨op, -, heq⟩ := List.mem_map.1 he
  cases heq

namespace Expression

variable {y : Yard}

theorem stays_finish (hc : c.In t) (hd : d.In t) :
    Reading.Stays units I t (Round.LocatedIn units t) c (finish y d) := by
  unfold finish
  split
  · split
    · refine .pure hc fun e he => ?_
      rcases List.mem_append.1 he with he | he
      · exact locatedItems_itemsOf _ e he
      · cases List.mem_singleton.1 he
        exact ⟨d.rest, hd⟩
    · exact .malformed hc hd
  · exact .pure hc (locatedItems_itemsOf _)

theorem stays_operand {read : Reading Quantity} (hc : c.In t) (hd : d.In t)
    (hread : ∀ c : Cursor, c.In t → Reading.Stays units I t (fun _ => True) c read) :
    Reading.Stays units I t (Round.LocatedIn units t) c (operand y d.position read) := by
  refine .bind (.check hc hd) fun _ e he _ => .bind (hread e he) fun q f hf _ => .pure hf ?_
  intro e he
  cases List.mem_singleton.1 he

/-- A word that stands at a place of the text. -/
theorem stays_word (hrun : Runner.Stays units I context.run) (hcontext : context.Stays units I)
    (hc : c.In t) (hd : d.In t) {l : Lexeme} (hl : t.At d.position (l.spelling ++ rest)) :
    Reading.Stays units I t (Round.LocatedIn units t) c (word context y d.position l) := by
  cases l with
  | parenOpen =>
    refine .bind (.check hc hd) fun _ e he _ => .session_bind fun s _ => ?_
    simp only
    split
    · exact .throw he trivial
    · exact .pure he nofun
  | parenClose =>
    exact .bind (.check hc hd) fun x e he _ => .pure he (locatedItems_itemsOf x.1)
  | operator op =>
    exact .bind (.check hc hd) fun x e he _ => .pure he (locatedItems_itemsOf x.1)
  | number l =>
    simp only [word]
    split
    · exact stays_operand hc hd fun c hc => Reading.stays_number hc _
    · refine .throw hc ⟨rest, ?_⟩
      rw [String.toList_ofList]
      exact hl
  | name name =>
    exact stays_operand hc hd fun c hc => Reading.stays_named hrun hcontext hc hd _
  | mark x => exact .throw hc ⟨rest, hl⟩

/-- **A round of reading leads to a place of the text**, and its errors are located there. -/
theorem stays_step (hrun : Runner.Stays units I context.run) (hcontext : context.Stays units I)
    (hc : c.In t) : Reading.Stays units I t (Round.LocatedIn units t) c (step context y) := by
  rw [step_eq]
  refine .skipBlanks_bind (.get_bind ?_)
  have hblanks := hc.skipBlanks
  split
  · exact stays_finish hblanks hblanks
  next hends =>
    split
    · split
      · exact stays_finish hblanks hblanks
      · exact .malformed hblanks hblanks
    · refine .session_bind fun s _ => ?_
      split
      next l rest hscan =>
        have hplace : t.At c.skipBlanks.position (l.spelling ++ rest) := by
          rw [Lexeme.spelling_append_of_scan? hscan]
          exact hblanks
        refine .set_bind (stays_word hrun hcontext ?_ hblanks hplace)
        exact hblanks.moveTo (Lexeme.isBehind_of_scan? hscan).suffix
      next =>
        refine .throw hblanks ?_
        rw [Cursor.rest_skipBlanks] at hends ⊢
        have hplace : t.At c.skipBlanks.position (Text.trimStart c.rest) := hblanks
        match htrim : Text.trimStart c.rest with
        | [] =>
          rw [htrim] at hends
          exact absurd rfl hends
        | x :: rest => exact ⟨rest, htrim ▸ hplace⟩

/-! ## Streams -/

theorem locatedIn_underflow {items : List Postfix.Item} (h : LocatedItems units t items)
    (stack : Postfix.Stack) : (Postfix.underflow stack items).PlacedIn units t := by
  fun_induction Postfix.underflow stack items with
  | case1 => trivial
  | case2 position soFar? items => exact h (.unterminated position soFar?) List.mem_cons_self
  | case3 item items _ ih => exact ih fun e he => h e (List.mem_cons_of_mem _ he)

theorem locates_binary (op : Operator) (p q : Quantity) :
    Locates units t (fun _ => True) (op.binary p q) := by
  have hcompare (holds : Ordering → Bool) : Placeless (Operator.comparison p q holds) :=
    (Quantity.placeless_compare p q).bind fun _ => .ok _
  cases op with
  | add => exact .of_placeless ((Quantity.placeless_align p q).bind fun _ => .ok _)
  | sub => exact .of_placeless ((Quantity.placeless_align p q).bind fun _ => .ok _)
  | mul => exact .of_placeless (Quantity.placeless_mul p q)
  | div => exact .of_placeless (Quantity.placeless_div p q)
  | pow => exact .of_placeless (Operator.placeless_power .pow p q)
  | root => exact .of_placeless (Operator.placeless_power .root p q)
  | equals | differs | lessThan | lessOrEqual | greaterThan | greaterOrEqual =>
    exact .of_placeless (hcompare _)
  | parenOpen | parenClose | not | plus | minus => trivial

/-- The evaluation of a stream ends in an error of the stream, or in one that tells no position. -/
theorem locates_run {items : List Postfix.Item} (h : LocatedItems units t items)
    (stack : Postfix.Stack) : Locates units t (fun _ => True) (Postfix.run items stack) := by
  induction items generalizing stack with
  | nil => trivial
  | cons item items ih =>
    have hitems : LocatedItems units t items := fun e he => h e (List.mem_cons_of_mem _ he)
    match item with
    | .ok (.operand q) => exact ih hitems _
    | .ok (.operator op) =>
      rw [Postfix.run.eq_def]
      simp only
      split
      · split
        · exact ih hitems _
        · exact locatedIn_underflow hitems _
      · split
        next q p stack =>
          have hbinary : Locates units t (fun _ => True) (op.binary p q) := locates_binary op p q
          split
          · exact ih hitems _
          next e he =>
            rw [he] at hbinary
            exact hbinary
        · exact locatedIn_underflow hitems _
    | .error e =>
      have he := h e List.mem_cons_self
      cases e with
      | unterminated position soFar? => exact he
      | _ => exact he

theorem stays_feed (hrun : Runner.Stays units I context.run) (hcontext : context.Stays units I)
    (stack : Postfix.Stack) (hc : c.In t) :
    Run.Stays I (fun fed => fed.place.In t ∧ Locates units t (fun _ => True) fed.state)
      (feed context Postfix.run stack y c) := by
  induction hn : c.rest.length using Nat.strongRecOn generalizing stack y c with
  | ind n ih =>
    rw [feed]
    refine .bind (stays_step hrun hcontext hc) fun x hx => ?_
    obtain ⟨r | round, d⟩ := x
    · obtain ⟨hd, hr⟩ := hx
      refine .pure ⟨hd, locates_run (fun e' he' => ?_) stack⟩
      cases List.mem_singleton.1 he'
      exact hr
    obtain ⟨hd, hr⟩ := hx
    cases round with
    | last items => exact .pure ⟨hd, locates_run hr stack⟩
    | more items y' =>
      have hitems := locates_run hr stack
      simp only
      split
      next e hrun =>
        rw [hrun] at hitems
        exact .pure ⟨hd, hitems⟩
      next stack' hrun =>
        split
        next hlt => exact ih d.rest.length (hn ▸ hlt) stack' hd rfl
        next => exact .pure ⟨hd, trivial⟩

/-! ## Values and lists -/

theorem stays_value (hrun : Runner.Stays units I context.run) (hcontext : context.Stays units I)
    (t : Text) : Run.Stays I (Parsed.LocatedIn units t) (value context t) := by
  refine .bind (stays_feed hrun hcontext [] (Cursor.in_start t)) fun fed ⟨hplace, hstate⟩ => ?_
  refine .pure ⟨hplace.suffix, ?_⟩
  refine (hstate.bind (Q := fun _ => True) fun stack _ => ?_).bind fun q? _ => ?_
  · unfold Postfix.value?
    split
    · trivial
    · trivial
    · trivial
  · cases q? with
    | none => trivial
    | some q => trivial

/-- A target unit is malformed at a place of the text between its brackets. -/
theorem locates_inTarget (q : Quantity) {target : Text}
    (h : t.At p ('[' :: (target ++ ']' :: rest))) :
    Locates units t (fun _ => True) (inTarget s q target) := by
  have hunit : Locates units t (fun _ => True) ((s.system.parse target).mapError .unit) := by
    refine .of_malformed fun position fault hparse => ?_
    obtain ⟨rest', hrest'⟩ := s.system.locatedIn_of_parse hparse
    exact ⟨p, target, rest, rest', h, hrest'⟩
  refine hunit.bind fun unit _ => ?_
  split
  next => trivial
  next e he =>
    split
    · trivial
    · have hconvert : Locates units t (fun _ => True) ((q.convert unit).mapError .unit) :=
        .of_placeless (Quantity.placeless_convert q unit)
      rw [he] at hconvert
      exact hconvert

theorem stays_converted (hrun : Runner.Stays units I context.run) (hcontext : context.Stays units I)
    (t : Text) : Run.Stays I (Parsed.LocatedIn units t) (converted context t) := by
  refine .bind (stays_value hrun hcontext t) fun ⟨value, rest⟩ ⟨hrest, hvalue⟩ => ?_
  cases value with
  | error e => exact .pure ⟨hrest, hvalue⟩
  | ok q =>
    refine .get_bind fun s _ => ?_
    simp only at hrest ⊢
    split
    next inside htrim =>
      have hinside : '[' :: inside <:+ t := (htrim ▸ Text.trimStart_suffix rest).trans hrest
      have hplace := Text.at_of_suffix hinside
      split
      next target behind hcut =>
        have hcut := (Text.eq_append_of_cut? hcut).1
        have htarget : t.At _ ('[' :: (target ++ ']' :: behind)) := hcut ▸ hplace
        refine .pure ⟨?_, locates_inTarget q htarget⟩
        refine List.IsSuffix.trans ?_ hinside
        rw [hcut]
        exact ((List.suffix_cons _ _).trans (List.suffix_append _ _)).trans (List.suffix_cons _ _)
      next => exact .pure ⟨hinside, _, hplace⟩
    next => exact .pure ⟨hrest, trivial⟩

/-- The elements of a list are read from ends of its text. -/
theorem stays_listFrom (hrun : Runner.Stays units I context.run) (hcontext : context.Stays units I)
    (values : List Quantity) {offset : Nat} (hu : t.At offset u) :
    Run.Stays I (Parsed.LocatedIn units t) (listFrom context values offset u) := by
  induction hn : u.length using Nat.strongRecOn generalizing values offset u with
  | ind n ih =>
    rw [listFrom]
    refine .bind (stays_converted hrun hcontext u) fun parsed hparsed => ?_
    obtain ⟨value, rest⟩ := parsed
    obtain ⟨hrest, hvalue⟩ := hparsed
    cases value with
    | error e => exact .pure ⟨hrest.trans hu.suffix, Error.PlacedIn.shift hvalue hu⟩
    | ok q =>
      simp only at hrest ⊢
      split
      next next htrim =>
        have hnext := (Text.isBehind_of_trimStart htrim).suffix.trans hrest
        split
        next hlt => exact ih next.length (hn ▸ hlt) _ (hu.trans (Text.at_of_suffix hnext)) rfl
        next => exact .pure ⟨hrest.trans hu.suffix, trivial⟩
      next => exact .pure ⟨hrest.trans hu.suffix, trivial⟩

theorem stays_list (hrun : Runner.Stays units I context.run) (hcontext : context.Stays units I)
    (t : Text) : Run.Stays I (Parsed.LocatedIn units t) (list context t) :=
  stays_listFrom hrun hcontext [] (Text.at_zero t)

/-- **Arguments are read in place**, however deeply they are nested. -/
theorem stays_arguments {run : Runner} (hrun : Runner.Stays units I run) (room : Nat) (t : Text) :
    Run.Stays I (Parsed.LocatedIn units t) (arguments run room t) := by
  induction room generalizing t with
  | zero => exact .get_bind fun _ _ => .pure ⟨List.suffix_refl _, trivial⟩
  | succ room ih =>
    have hcontext : ReadingContext.Stays units I ⟨run, arguments run room, true⟩ := ih
    exact stays_list hrun hcontext t

theorem stays_topLevel {run : Runner} (hrun : Runner.Stays units I run) :
    Run.Stays I (fun context => Runner.Stays units I context.run ∧ context.Stays units I)
      (topLevel run) :=
  .get_bind fun _ _ => .pure ⟨hrun, stays_arguments hrun _⟩

end Expression

/-! ## What is read of a text -/

/-- Reading a text leaves an end of it, and if the session is quiet, errors are located in the
text. -/
def Session.ReadsInPlace (s : Session) (t : Text) (read : Run (Parsed α)) : Prop :=
  ∀ ⦃parsed : Parsed α⦄ ⦃u : Session⦄, read.outcome s = .ok (parsed, u) →
    parsed.rest <:+ t ∧ (s.Quiet → ∀ e, parsed.value = .error e → e.LocatedIn t)

theorem readsInPlace_of_stays {budget : Nat}
    {read : ReadingContext → Text → Run (Parsed α)}
    (hforward : ∀ {context : ReadingContext}, context.Genuine →
      Run.Grants (Parsed.Forward t) (read context t))
    (hstays : ∀ {context : ReadingContext}, Runner.Stays True (· = s) context.run →
      context.Stays True (· = s) → Run.Stays (· = s) (Parsed.LocatedIn True t) (read context t)) :
    s.ReadsInPlace t (Expression.topLevel (activation budget) >>= (read · t)) := by
  intro parsed u hm
  refine ⟨?_, fun hs e he => ?_⟩
  · have hgrants : Run.Grants (Parsed.Forward t)
        (Expression.topLevel (activation budget) >>= (read · t)) :=
      .bind (Expression.grants_topLevel (genuine_activation budget)) fun _ h => hforward h
    exact (hgrants hm).2
  · have hread : Run.Stays (· = s) (Parsed.LocatedIn True t)
        (Expression.topLevel (activation budget) >>= (read · t)) :=
      .bind (Expression.stays_topLevel (hs.stays _)) fun _ h => hstays h.1 h.2
    obtain ⟨-, -, hvalue⟩ := hread rfl hm
    rw [he] at hvalue
    exact Error.PlacedIn.locatedIn hvalue

/-- **Expressions, converted expressions and lists are read in place.** What is left is an end of
the text, also behind an error. In a session that has nothing to call but built-in functions, every
position is a boundary between two characters of the text, an unexpected character and an invalid
number stand at their positions, and the position in a malformed unit is a boundary in the text of a
target, without the white space around it. -/
theorem readsInPlace (s : Session) (budget : Nat) (t : Text) :
    s.ReadsInPlace t (readExpression budget t) ∧ s.ReadsInPlace t (readConverted budget t) ∧
      s.ReadsInPlace t (readList budget t) :=
  ⟨readsInPlace_of_stays (Expression.grants_value · t) (Expression.stays_value · · t),
    readsInPlace_of_stays (Expression.grants_converted · t) (Expression.stays_converted · · t),
    readsInPlace_of_stays (Expression.grants_list · t) (Expression.stays_list · · t)⟩

/-! ## A session with nothing to call -/

theorem FileTree.isFile_follow_nil (place segments : List String) :
    ((⟨[]⟩ : FileTree).follow place segments).isFile = false := by
  have hentry (place : List String) : ((⟨[]⟩ : FileTree).entry place).isFile = false := by
    simp only [entry, List.find?_nil, List.any_nil, Bool.or_false]
    split
    · rfl
    · rfl
  induction segments generalizing place with
  | nil => exact hentry place
  | cons segment segments ih =>
    rw [follow]
    split
    · rfl
    · rfl
    · rfl
    · split
      · exact ih place
      split
      · exact ih _
      split
      · rfl
      · exact ih _

/-- A new session in an empty directory. -/
def Session.blank : Session := start {} (FileTree.ofList []).files

theorem quiet_blank : blank.Quiet where
  function hitem := by
    cases eq_unitSystem_of_item?_start hitem
  script {_ path found} _ hfound := by
    have hsighting : found = (FileTree.ofList []).sighting path := (Except.ok.inj hfound).symm
    rw [hsighting, FileTree.sighting]
    split
    · rfl
    · exact FileTree.isFile_follow_nil _ _

/-- What is selected of the error of an expression, read in a new session. -/
def reported? (select : Error → Option α) (t : Text) : Option α :=
  match (readConverted 1 t).outcome blank with
  | .ok (⟨.error e, _⟩, _) => select e
  | _ => none

theorem exists_of_reported? {select : Error → Option α} {a : α} (h : reported? select t = some a) :
    ∃ e rest u, (readConverted 1 t).outcome blank = .ok (⟨.error e, rest⟩, u) ∧
      select e = some a := by
  unfold reported? at h
  split at h
  next e rest u hout => exact ⟨e, rest, u, hout, h⟩
  next => cases h

/-- An unexpected character is found where it stands, behind a character of two bytes and among
arguments of arguments. -/
theorem readsInPlace_sample :
    blank.Quiet ∧ ∃ parsed u e position rest,
      (readConverted 1 "1 µs + max(2 s, abs(1, $))".toList).outcome blank = .ok (parsed, u) ∧
      parsed.value = .error e ∧ e = .unexpectedChar position '$' ∧
      Text.At "1 µs + max(2 s, abs(1, $))".toList position ('$' :: rest) := by
  have hreported : reported? (fun
      | .unexpectedChar position '$' => some position
      | _ => none) "1 µs + max(2 s, abs(1, $))".toList = some 24 := by
    decide +kernel
  obtain ⟨e, rest, u, hout, he⟩ := exists_of_reported? hreported
  split at he
  next position =>
    obtain ⟨-, hconverted, -⟩ := readsInPlace blank 1 "1 µs + max(2 s, abs(1, $))".toList
    obtain ⟨rest', hplace⟩ := (hconverted hout).2 quiet_blank _ rfl
    exact ⟨quiet_blank, _, u, _, position, rest', hout, rfl, rfl, hplace⟩
  next => cases he

/-- A malformed target unit is reported at a position that is no boundary in the whole text: the
third byte of it is the second one of a character. -/
theorem not_at_malformed_target :
    blank.Quiet ∧ ∃ parsed u position fault,
      (readConverted 1 "1 µs [mi/]".toList).outcome blank = .ok (parsed, u) ∧
      parsed.value = .error (.unit (.malformed position fault)) ∧
      ∀ rest, ¬Text.At "1 µs [mi/]".toList position rest := by
  have hreported : reported? (fun
      | .unit e => e.position?
      | _ => none) "1 µs [mi/]".toList = some 3 := by
    decide +kernel
  obtain ⟨e, rest, u, hout, he⟩ := exists_of_reported? hreported
  split at he
  next e =>
    obtain ⟨fault, rfl⟩ := UnitError.eq_malformed_of_position? he
    refine ⟨quiet_blank, _, u, 3, fault, hout, rfl, ?_⟩
    rintro rest ⟨front, htext, hposition⟩
    have hfront : front = "1 µs [mi/]".toList.take front.length := by
      rw [htext, List.take_left]
    have hcuts : ∀ n ≤ 10, Text.bytes ("1 µs [mi/]".toList.take n) ≠ 3 := by decide
    have hlength := congrArg List.length htext
    rw [List.length_append] at hlength
    exact hcuts front.length (Nat.le_of_add_right_le hlength.ge) (hfront ▸ hposition.symm)
  next => cases he

end QuantityCalc
