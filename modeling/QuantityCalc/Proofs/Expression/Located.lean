import QuantityCalc.Proofs.Run.Outcome
import QuantityCalc.Proofs.Unit.Places
import QuantityCalc.Session.Calls

/-!
# Errors that are located in a text

An error is located in a text (`Error.LocatedIn`) if its position is a boundary between two
characters there, and what it quotes stands at this position. An error that is located in a part of
a text is located in the text when it is shifted by the bytes before the part
(`Error.LocatedIn.shift`).

Functions and scripts report places of their own texts. In a session where none of them can be
called (`Session.Quiet`), calls report no places (`Runner.Stays`). Then reading an operand stays in
its text (`Reading.Stays`): it leads to a place there, and its error is located there. The sessions
in between have a property `I`: all of them are one and the same session, for example.

A parameter may have a malformed unit, and then the error of a call tells a position in this unit.
Such errors are left out unless `units` holds (`Error.PlacedIn`).
-/

namespace QuantityCalc

open Session

variable {α β : Type} {units : Prop} {I : Session → Prop} {s : Session} {t u rest : Text}
  {p : Nat} {c d : Cursor}

/-- What an error tells of a text is true of it. The position of a malformed unit is one in the text
of a target unit. -/
def Error.LocatedIn (t : Text) : Error → Prop
  | .unexpectedChar position found => ∃ rest, t.At position (found :: rest)
  | .invalidNumber position text => ∃ rest, t.At position (text.toList ++ rest)
  | .malformed position _ | .unterminated position _ => ∃ rest, t.At position rest
  | .unit (.malformed position _) => ∃ start target rest rest',
      t.At start ('[' :: (target ++ ']' :: rest)) ∧ (Text.trim target).At position rest'
  | _ => True

/-- **What is located in a part of a text is located in the text**, when it is shifted by the bytes
before the part. -/
theorem Error.LocatedIn.shift {e : Error} (h : e.LocatedIn u) (hu : t.At p u) :
    (e.shift p).LocatedIn t := by
  have hplace {q : Nat} {rest : Text} (h : u.At q rest) : t.At (q + p) rest :=
    Nat.add_comm p q ▸ hu.trans h
  cases e with
  | unexpectedChar position found =>
    obtain ⟨rest, hrest⟩ := h
    exact ⟨rest, hplace hrest⟩
  | invalidNumber position text =>
    obtain ⟨rest, hrest⟩ := h
    exact ⟨rest, hplace hrest⟩
  | malformed position what =>
    obtain ⟨rest, hrest⟩ := h
    exact ⟨rest, hplace hrest⟩
  | unterminated position soFar? =>
    obtain ⟨rest, hrest⟩ := h
    exact ⟨rest, hplace hrest⟩
  | unit e =>
    cases e with
    | malformed position fault =>
      obtain ⟨start, target, rest, rest', htarget, hrest'⟩ := h
      exact ⟨_, target, rest, rest', hplace htarget, hrest'⟩
    | _ => trivial
  | _ => trivial

/-- An error is located in a text, or it is an error of units, and these do not count. -/
def Error.PlacedIn (units : Prop) (t : Text) : Error → Prop
  | .unit e => units → (Error.unit e).LocatedIn t
  | .internal _ => True
  | e => e.LocatedIn t

/-- Only an error of units can be placed in a text without being located there. -/
theorem Error.placedIn_iff_of_ne {e : Error} (h : ∀ e', e ≠ .unit e') :
    e.PlacedIn units t ↔ e.LocatedIn t := by
  cases e with
  | unit e' => exact absurd rfl (h e')
  | _ => exact Iff.rfl

theorem Error.LocatedIn.placedIn {e : Error} (h : e.LocatedIn t) : e.PlacedIn units t := by
  cases e with
  | unit e => exact fun _ => h
  | _ => exact h

theorem Error.PlacedIn.locatedIn {e : Error} (h : e.PlacedIn True t) : e.LocatedIn t := by
  cases e with
  | unit e => exact h trivial
  | _ => exact h

/-- What is placed in a part of a text is placed in the text, when it is shifted by the bytes before
the part. -/
theorem Error.PlacedIn.shift {e : Error} (h : e.PlacedIn units u) (hu : t.At p u) :
    (e.shift p).PlacedIn units t := by
  by_cases hunit : ∃ e', e = .unit e'
  · obtain ⟨e', rfl⟩ := hunit
    exact fun hunits => LocatedIn.shift (h hunits) hu
  · exact (LocatedIn.shift ((placedIn_iff_of_ne (not_exists.1 hunit)).1 h) hu).placedIn

/-- An outcome is an error that is located in a text, or its value has a property. -/
def Locates (units : Prop) (t : Text) (P : α → Prop) : Except Error α → Prop
  | .ok a => P a
  | .error e => e.PlacedIn units t

namespace Locates

variable {P : α → Prop} {Q : β → Prop} {r : Except Error α}

/-- The second of two steps is asked only about values that the first can yield. -/
theorem bind {f : α → Except Error β} (h : Locates units t P r)
    (hf : ∀ a, P a → Locates units t Q (f a)) : Locates units t Q (r >>= f) := by
  cases r with
  | ok a => exact hf a h
  | error e => exact h

/-- Errors that are located in a part of a text are located in the text, once shifted. -/
theorem shift (h : Locates units u P r) (hu : t.At p u) :
    Locates units t P (r.mapError (·.shift p)) := by
  cases r with
  | ok a => exact h
  | error e => exact Error.PlacedIn.shift h hu

/-- If errors of units are located too, they may as well be left out. -/
theorem anyUnits (h : Locates True t P r) : Locates units t P r := by
  cases r with
  | ok a => exact h
  | error e => exact (Error.PlacedIn.locatedIn h).placedIn

/-- Of the errors of units, malformed units alone tell a position. -/
theorem of_malformed {r : Except UnitError α}
    (h : ∀ position fault, r = .error (.malformed position fault) →
      (Error.unit (.malformed position fault)).LocatedIn t) :
    Locates units t (fun _ => True) (r.mapError .unit) := by
  cases r with
  | ok a => trivial
  | error e =>
    cases e with
    | malformed position fault => exact (h position fault rfl).placedIn
    | _ => exact fun _ => trivial

/-- Errors of arithmetic tell no position. -/
theorem of_placeless {r : Except UnitError α} (h : Placeless r) :
    Locates units t (fun _ => True) (r.mapError .unit) :=
  of_malformed fun position fault heq => absurd heq (h position fault)

end Locates

/-! ## Steps between sessions of a kind -/

/-- Sessions with a property stay so in a step, and what the step leads to has a property. -/
def Run.Stays (I : Session → Prop) (P : α → Prop) (m : Run α) : Prop :=
  ∀ ⦃s t : Session⦄ ⦃a : α⦄, I s → m.outcome s = .ok (a, t) → I t ∧ P a

/-- Sessions with a property stay so in a step that may fail, and its error is located in a text. -/
def Action.Stays (units : Prop) (I : Session → Prop) (t : Text) (P : α → Prop) (m : Action α) :
    Prop :=
  Run.Stays I (Locates units t P) m.run

/-- Sessions with a property stay so when a text is read on from a place. Reading leads to a place
of the text, and its error is located there. -/
def Reading.Stays (units : Prop) (I : Session → Prop) (t : Text) (P : α → Prop) (c : Cursor)
    (m : Reading α) : Prop :=
  Run.Stays I (fun x => x.2.In t ∧ Locates units t P x.1) (m.run c)

namespace Run.Stays

variable {P : α → Prop} {Q : β → Prop} {m : Run α}

theorem pure {a : α} (h : P a) : Run.Stays I P (Pure.pure a) :=
  fun _ _ _ hs hm => by cases hm; exact ⟨hs, h⟩

theorem bind {f : α → Run β} (h : Run.Stays I P m) (hf : ∀ a, P a → Run.Stays I Q (f a)) :
    Run.Stays I Q (m >>= f) := by
  intro s v b hs hm
  rw [outcome_bind] at hm
  rcases hout : m.outcome s with e | ⟨a, u⟩
  · rw [hout] at hm
    cases hm
  · rw [hout] at hm
    obtain ⟨hu, ha⟩ := h hs hout
    exact hf a ha hu hm

theorem get_bind {f : Session → Run α} (h : ∀ s, I s → Run.Stays I P (f s)) :
    Run.Stays I P (get >>= f) :=
  fun s _ _ hs hm => h s hs hs hm

end Run.Stays

namespace Action.Stays

variable {P : α → Prop} {Q : β → Prop}

theorem pure {a : α} (h : P a) : Action.Stays units I t P (Pure.pure a) :=
  Run.Stays.pure (a := Except.ok a) h

theorem throw {e : Error} (h : e.PlacedIn units t) :
    Action.Stays units I t P (MonadExcept.throw e) :=
  Run.Stays.pure (a := Except.error e) h

/-- An outcome that is known already leaves the session as it is. -/
theorem except {r : Except Error α} (h : Locates units t P r) :
    Action.Stays units I t P (liftM r) := by
  intro s u r' hs hm
  rw [Run.outcome_action, outcome_except] at hm
  cases hm
  exact ⟨hs, h⟩

theorem liftExcept {r : Except Error α} (h : Locates units t P r) :
    Action.Stays units I t P (liftExcept r) := by
  intro s u r' hs hm
  rw [Run.outcome_action, outcome_liftExcept] at hm
  cases hm
  exact ⟨hs, h⟩

theorem get_bind {f : Session → Action α} (h : ∀ s, I s → Action.Stays units I t P (f s)) :
    Action.Stays units I t P (get >>= f) :=
  fun s _ _ hs hm => h s hs hs hm

theorem bind {m : Action α} {f : α → Action β} (h : Action.Stays units I t P m)
    (hf : ∀ a, P a → Action.Stays units I t Q (f a)) : Action.Stays units I t Q (m >>= f) := by
  change Run.Stays I _ (m.run >>= ExceptT.bindCont f)
  refine Run.Stays.bind h fun r hr => ?_
  cases r with
  | ok a => exact hf a hr
  | error e => exact Run.Stays.pure (a := Except.error e) hr

/-- A step without errors. -/
theorem lift {m : Run α} (h : Run.Stays I P m) : Action.Stays units I t P (ExceptT.lift m) := by
  intro s u r hs hm
  rw [Run.outcome_action, outcome_lift] at hm
  rcases hout : m.outcome s with halt | ⟨a, v⟩
  · rw [hout] at hm
    cases hm
  · rw [hout] at hm
    cases hm
    exact h hs hout

/-- A step that cannot fail goes before one that can. -/
theorem lift_bind {m : Run α} {f : α → Action β} (h : Run.Stays I P m)
    (hf : ∀ a, P a → Action.Stays units I t Q (f a)) :
    Action.Stays units I t Q (ExceptT.lift m >>= f) :=
  bind (lift h) hf

end Action.Stays

namespace Reading.Stays

variable {P : α → Prop} {Q : β → Prop} {m : Reading α}

theorem pure (hc : c.In t) {a : α} (h : P a) : Reading.Stays units I t P c (Pure.pure a) :=
  Run.Stays.pure (a := (Except.ok a, c)) ⟨hc, h⟩

theorem throw (hc : c.In t) {e : Error} (h : e.PlacedIn units t) :
    Reading.Stays units I t P c (MonadExcept.throw e) :=
  Run.Stays.pure (a := (Except.error e, c)) ⟨hc, h⟩

/-- A malformation is located wherever a reader in the text reports it. -/
theorem malformed (hc : c.In t) (hd : d.In t) {what : Malformation} :
    Reading.Stays units I t P c (Reading.malformed d.position what) :=
  throw hc ⟨d.rest, hd⟩

theorem liftExcept (hc : c.In t) {r : Except Error α} (h : Locates units t P r) :
    Reading.Stays units I t P c (liftExcept r) := by
  intro s v x hs hm
  rw [Run.outcome_reading, outcome_liftExcept] at hm
  cases hm
  exact ⟨hs, hc, h⟩

/-- A check reports the place it is made for, and there are no other errors. -/
theorem check (hc : c.In t) (hd : d.In t) {r : Except Malformation α} :
    Reading.Stays units I t (fun _ => True) c (Reading.check d.position r) := by
  refine liftExcept hc ?_
  cases r with
  | ok a => trivial
  | error what => exact ⟨d.rest, hd⟩

/-- Reading on starts from the place that was reached, which is one in the text. -/
theorem bind {f : α → Reading β} (h : Reading.Stays units I t P c m)
    (hf : ∀ a d, d.In t → P a → Reading.Stays units I t Q d (f a)) :
    Reading.Stays units I t Q c (m >>= f) := by
  change Run.Stays I _
    (m.run c >>= fun x => (ExceptT.bindCont f x.1 : StateT Cursor Run (Except Error β)) x.2)
  refine Run.Stays.bind h fun ⟨r, d⟩ ⟨hd, hr⟩ => ?_
  cases r with
  | ok a => exact hf a d hd hr
  | error e => exact Run.Stays.pure (a := (Except.error e, d)) ⟨hd, hr⟩

theorem get_bind {f : Cursor → Reading α} (h : Reading.Stays units I t P c (f c)) :
    Reading.Stays units I t P c (get >>= f) :=
  h

theorem session_bind {f : Session → Reading α}
    (h : ∀ s, I s → Reading.Stays units I t P c (f s)) :
    Reading.Stays units I t P c (getThe Session >>= f) :=
  fun s _ _ hs hm => h s hs hs hm

theorem set_bind {f : PUnit → Reading α} (h : Reading.Stays units I t P d (f ⟨⟩)) :
    Reading.Stays units I t P c (set d >>= f) :=
  h

/-- Behind white space the reader is still in the text. -/
theorem skipBlanks_bind {f : PUnit → Reading α}
    (h : Reading.Stays units I t P c.skipBlanks (f ⟨⟩)) :
    Reading.Stays units I t P c (modify Cursor.skipBlanks >>= f) :=
  h

theorem lift_bind {m : Run α} {P : α → Prop} {f : α → Reading β} (h : Run.Stays I P m)
    (hf : ∀ a, P a → Reading.Stays units I t Q c (f a)) :
    Reading.Stays units I t Q c (ExceptT.lift (StateT.lift m) >>= f) := by
  intro s v x hs hm
  rw [Run.outcome_reading, outcome_bind, outcome_lift] at hm
  rcases hout : m.outcome s with e | ⟨a, u⟩
  · rw [hout] at hm
    cases hm
  · rw [hout] at hm
    obtain ⟨hu, ha⟩ := h hs hout
    exact hf a ha hu hm

/-- An action reads nothing, so the reader stays where it is. -/
theorem act (hc : c.In t) {m : Action α} {P : α → Prop} (h : Action.Stays units I t P m) :
    Reading.Stays units I t P c (Reading.act m) :=
  lift_bind h fun _ hr => liftExcept hc hr

end Reading.Stays

/-! ## Calls -/

/-- A session without functions of command lines, in which no script is found: nothing can be called
but the built-in functions. -/
structure Session.Quiet (s : Session) : Prop where
  function : ∀ {p : Nat} {name : String} {f : UserFunction} {scope : Nat},
    s.item? p name ≠ some (.function f scope)
  script : ∀ {name path : String} {found : Sighting}, path ∈ s.candidates name →
    s.files.look path = .ok found → found.isFile = false

namespace Session.Quiet

variable (hs : s.Quiet)
include hs

/-- There is no function to be found in a quiet session. -/
theorem function?_eq_none (home : Home) (name : String) : s.function? home name = none := by
  rw [function?]
  split
  next f scope hitem =>
    cases home with
    | scope p => exact absurd hitem hs.function
    | system => cases hitem
    | builtins => cases hitem
  next => rfl

/-- No script is found in a quiet session, and looking for one changes nothing. -/
theorem stays_findScript (name : String) :
    Run.Stays (· = s) (fun path? => path? = none) (findScript name) := by
  have hfirst (paths : List String) (h : ∀ path ∈ paths, ∀ {found : Sighting},
      s.files.look path = .ok found → found.isFile = false) :
      Run.Stays (· = s) (fun path? => path? = none) (firstFile? paths) := by
    induction paths with
    | nil => exact .pure rfl
    | cons path paths ih =>
      obtain ⟨hpath, hpaths⟩ := List.forall_mem_cons.1 h
      have hlook : Run.Stays (· = s) (fun found => found.isFile = false) (Run.look path) := by
        rintro _ u found rfl hm
        rw [Run.outcome_look] at hm
        split at hm
        next found' hfound =>
          cases hm
          exact ⟨rfl, hpath hfound⟩
        next => cases hm
      refine .bind hlook fun found hfound => ?_
      rw [hfound]
      exact ih hpaths
  refine .get_bind ?_
  rintro _ rfl
  exact hfirst _ fun path hpath _ => hs.script hpath

/-- A call of a file fails in a quiet session, since there is no such script. -/
theorem stays_callFile (run : Runner) (name : String) :
    Action.Stays units (· = s) t (fun _ => True) (callFile run name) := by
  refine .lift_bind (hs.stays_findScript _) fun path? hnone => ?_
  subst hnone
  exact .pure trivial

end Session.Quiet

/-- A built-in function knows no text: its errors tell no place. -/
theorem Builtin.locates_call (f : Builtin) (args : List Quantity) :
    Locates units t (fun _ => True) (f.call args) := by
  have hextreme (beats : Ordering) (q : Quantity) (qs : List Quantity) :
      Locates units t (fun _ => True) (extreme beats q qs) := by
    induction qs generalizing q with
    | nil => trivial
    | cons p qs ih =>
      refine (Locates.of_placeless (Quantity.placeless_compare p q)).bind fun order _ => ?_
      split
      · exact ih p
      · exact ih q
  have hplain (g : Float → Float) (q : Quantity) :
      Locates units t (fun _ => True) (ofPlain g q) := by
    unfold ofPlain
    split
    · trivial
    · trivial
  unfold call
  split
  next q qs =>
    split
    · cases f with
      | abs | round | floor | ceil => trivial
      | sqrt => exact .of_placeless (Quantity.placeless_root q 2)
      | min => exact hextreme .lt q qs
      | max => exact hextreme .gt q qs
      | _ => exact hplain _ q
    · trivial
  next => trivial

/-- In a quiet session only built-in functions are called. -/
theorem Session.Quiet.stays_call (hs : s.Quiet) (run : Runner) (home : Home) (name : String)
    (args : List Quantity) :
    Action.Stays units (· = s) t (fun _ => True) (call run home name args) := by
  unfold call
  split
  · split
    · exact .except (Builtin.locates_call _ _)
    · exact .throw trivial
  · refine .get_bind ?_
    rintro _ rfl
    rw [hs.function?_eq_none]
    exact .throw trivial

/-- Sessions with a property stay so in calls, and what calls report is located in every text. -/
structure Runner.Stays (units : Prop) (I : Session → Prop) (run : Runner) : Prop where
  call : ∀ (t : Text) (home : Home) (name : String) (args : List Quantity),
    Action.Stays units I t (fun _ => True) (call run home name args)
  callFile : ∀ (t : Text) (name : String),
    Action.Stays units I t (fun _ => True) (callFile run name)

/-- **In a quiet session, calls of all kinds report no places** and leave the session as it is. -/
theorem Session.Quiet.stays (hs : s.Quiet) (run : Runner) : Runner.Stays units (· = s) run :=
  ⟨fun _ => hs.stays_call run, fun _ => hs.stays_callFile run⟩

/-! ## Operands -/

/-- What was read of a text leaves an end of it, and its error is located there. -/
def Parsed.LocatedIn (units : Prop) (t : Text) (parsed : Parsed α) : Prop :=
  parsed.rest <:+ t ∧ Locates units t (fun _ => True) parsed.value

/-- Sessions with a property stay so when the arguments of calls are read, and errors are located in
the text that they are read from. -/
def ReadingContext.Stays (units : Prop) (I : Session → Prop) (context : ReadingContext) : Prop :=
  ∀ t, Run.Stays I (Parsed.LocatedIn units t) (context.arguments t)

variable {context : ReadingContext}

namespace Reading

/-- The unit behind a number is read from the same text, and its errors tell no place. -/
theorem stays_number (hc : c.In t) (value : Float) :
    Reading.Stays units I t (fun _ => True) c (number value) := by
  refine .get_bind (.session_bind fun s _ => ?_)
  split
  next unit rest hscan =>
    have hrest := (UnitSystem.suffix_of_scan? hscan).trans (Text.trimStart_suffix c.rest)
    exact .set_bind (.pure (hc.moveTo hrest) trivial)
  next e hscan =>
    refine .set_bind (.throw hc.skipBlanks ?_)
    exact Locates.of_placeless (s.system.placeless_of_scan? hscan)
  next => exact .pure hc trivial

/-- Arguments are expressions in the same text, however many there are. -/
theorem stays_arguments (hcontext : context.Stays units I) (hc : c.In t) :
    Reading.Stays units I t (fun _ => True) c (arguments context) := by
  refine .skipBlanks_bind (.get_bind ?_)
  have hblanks := hc.skipBlanks
  split
  next d heat => exact .set_bind (.pure (hblanks.eat? heat) trivial)
  next =>
    refine .lift_bind (hcontext _) fun parsed ⟨hrest, hvalue⟩ => .set_bind ?_
    -- the arguments are a text of their own, which starts at the place of the cursor
    refine .bind (.liftExcept (hblanks.moveTo hrest) (hvalue.shift hblanks)) fun args d hd _ => ?_
    refine .skipBlanks_bind (.get_bind ?_)
    have hend := hd.skipBlanks
    split
    next e heat => exact .set_bind (.pure (hend.eat? heat) trivial)
    next =>
      split
      · exact .throw hend ⟨_, hend⟩
      · exact .malformed hend hend

/-- A call of a script takes the list of its arguments from the text. -/
theorem stays_scriptCall (hrun : Runner.Stays units I context.run) (hc : c.In t) (path : String) :
    Reading.Stays units I t (fun _ => True) c (scriptCall context path) := by
  refine .get_bind ?_
  split
  next => exact .throw hc trivial
  next d heat =>
    split
    · exact .throw hc trivial
    · refine .bind (.act hc (hrun.callFile t path)) fun value? e he _ => ?_
      split
      · exact .set_bind (.pure (hc.eat? heat) trivial)
      · exact .throw he trivial

/-- Whatever a name stands for, reading on from it stays in the text. -/
theorem stays_named (hrun : Runner.Stays units I context.run) (hcontext : context.Stays units I)
    (hc : c.In t) (hd : d.In t) (name : String) :
    Reading.Stays units I t (fun _ => True) c (named context name d.position) := by
  refine .get_bind (.session_bind fun s _ => .set_bind ?_)
  have hrest := hc.moveTo (resolve_suffix s name c.rest)
  split
  · exact stays_scriptCall hrun hrest _
  next meaning _ =>
    cases meaning.kind with
    | var =>
      refine .session_bind fun s _ => ?_
      split
      · exact .pure hrest trivial
      · exact .throw hrest trivial
    | unit =>
      refine .session_bind fun s _ => ?_
      split
      · exact .pure hrest trivial
      · exact .throw hrest trivial
    | function =>
      refine .get_bind ?_
      split
      next e heat =>
        have he := hrest.skipBlanks.eat? heat
        refine .set_bind (.bind (stays_arguments hcontext he) fun args f hf _ => ?_)
        exact .act hf (hrun.call _ _ _ args)
      next => exact .malformed hrest hd
    | unitSystem => exact .throw hrest trivial
    | space => exact .throw hrest trivial

end Reading

end QuantityCalc
