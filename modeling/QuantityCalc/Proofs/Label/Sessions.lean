import QuantityCalc.Proofs.Label.Commands
import QuantityCalc.Proofs.Run.Reachable

/-!
# Sessions with honest labels

A session whose quantities come from its own command lines is backed, in the sense of any labelling.
`HonestReachable L` is reachability with the condition that the system backs the quantities that are
handed to a session from the outside. Every such session is backed (`backed_of_honestReachable`),
and so is whatever is asked of it leads to (`Entry.yields_run`).
-/

namespace QuantityCalc

open Session

variable {L : Labelling} {s t : Session} {f : Frame} {fs : List Frame}

namespace Entry

/-- The quantities that are handed to a session by an entry. -/
def given : Entry → List Quantity
  | function _ _ args => args
  | line _ | lines _ | script _ | expression _ | converted _ | list _ | tokens _ | file _ => []

/-- The quantities that an entry leads to. -/
def values : (e : Entry) → e.Result → List Quantity
  | line _ => Except.values Flow.values
  | lines _ | script _ | file _ => Except.values Option.toList
  | expression _ | converted _ => Parsed.values fun q => [q]
  | list _ => Parsed.values id
  | tokens _ => fun x => Postfix.operands x.1
  | function .. => Except.values fun q => [q]

/-- The items of a stream that are collected are backed. -/
theorem backs_append :
    Expression.Backs L (fun items before => .ok (before ++ items)) Postfix.operands := by
  intro system items state state' _ h hitems hstate
  cases h
  rw [Postfix.operands_append]
  exact List.forall_mem_append.2 ⟨hstate, hitems⟩

/-- **Whatever is asked of a backed session leads to a backed one**, and to values that are
backed. -/
theorem yields_run (e : Entry) (budget : Nat) (hs : s.Backed L)
    (hgiven : L.BacksAll s.system e.given) : Run.Yields L e.values s (e.run budget) := by
  have hrun : (activation budget).Backed L := backed_activation budget
  cases e with
  | line l => exact Command.yields_line hrun hs l
  | lines ls => exact backed_activation (budget + 1) ls hs
  | script path => exact yields_runScript hrun hs path
  | expression t =>
    exact Expression.yields_topLevel hrun fun hcontext => Expression.yields_value hcontext hs t
  | converted t =>
    exact Expression.yields_topLevel hrun fun hcontext => Expression.yields_converted hcontext hs t
  | list t =>
    exact Expression.yields_topLevel hrun fun hcontext => Expression.yields_list hcontext hs t
  | tokens t =>
    refine Expression.yields_topLevel hrun fun hcontext => ?_
    refine .bind (Expression.yields_feed hcontext backs_append hs Labelling.backsAll_nil _ _)
      fun ⟨state, place⟩ u hu hfed => .pure hu.backed ?_
    cases state with
    | error e => exact Labelling.backsAll_nil
    | ok items => exact hfed
  | function home name args => exact yields_call hrun hs home name hgiven
  | file name => exact yields_callFile hrun hs name

end Entry

namespace Session

/-- What happens in a session between the beginning and the end of a call, if the quantities that
are handed to it are backed. -/
inductive HonestStep (L : Labelling) (s : Session) : Session → Prop where
  | entry (e : Entry) (budget : Nat) {r : e.Result} {t : Session}
      (hgiven : L.BacksAll s.system e.given) (h : (e.run budget).outcome s = .ok (r, t)) :
      HonestStep L s t
  | command (budget : Nat) (text : Text) {r : Except Error Command.Outcome} {t : Session}
      (h : (Command.one (activation budget) text).outcome s = .ok (r, t)) : HonestStep L s t
  | word (budget room : Nat) (nested : Bool) (y : Yard) (c : Cursor)
      {x : Except Error Round × Cursor} {t : Session}
      (h : (Expression.step ⟨activation budget, Expression.arguments (activation budget) room,
        nested⟩ y).outcome c s = .ok (x, t)) : HonestStep L s t
  | write (line : String) : HonestStep L s (s.write line)
  | define (path : String) (value : Quantity) {r : Except Error Unit} {t : Session}
      (hvalue : L.Backs s.system value.unit)
      (h : (Session.define path value).outcome s = .ok (r, t)) : HonestStep L s t
  | assign (path : String) (value : Quantity) {r : Except Error Unit} {t : Session}
      (hvalue : L.Backs s.system value.unit)
      (h : (Session.assign path value).outcome s = .ok (r, t)) : HonestStep L s t
  | unit (symbol : String) (value : Quantity) {r : Except Error Unit} {t : Session}
      (h : (declareUnit symbol value).outcome s = .ok (r, t)) : HonestStep L s t
  | space (path : String) {r : Except Error Nat} {t : Session}
      (h : (declareNamespace path).outcome s = .ok (r, t)) : HonestStep L s t
  | function (f : UserFunction) {r : Except Error Unit} {t : Session}
      (h : (registerFunction f).outcome s = .ok (r, t)) : HonestStep L s t
  | remove (path : String) {r : Except Error Item} {t : Session}
      (h : (Session.remove path).outcome s = .ok (r, t)) : HonestStep L s t
  | cancel : HonestStep L s s.cancelDraft.2
  | declaration (text : Text) : HonestStep L s (s.continueDeclaration text).2

/-- The sessions that can be met if the quantities that are handed to them are backed, each with the
frames of the calls that are running. -/
inductive HonestReachable (L : Labelling) : List Frame → Session → Prop where
  | start (options : Options) (files : Files) : HonestReachable L [] (start options files)
  | configure {s : Session} (h : HonestReachable L [] s) (options : Options) (files : Files) :
      HonestReachable L [] { s with options := options, files := files }
  | step {fs : List Frame} {s t : Session} (h : HonestReachable L fs s) (ht : HonestStep L s t) :
      HonestReachable L fs t
  | enter {fs : List Frame} {s : Session} {name : String} {parent : Nat}
      (h : HonestReachable L fs s) (hcaller : Caller s name parent)
      (hlt : s.depth < s.options.maxCallDepth) (args : List (String × Quantity))
      (hargs : L.BacksAll s.system (args.map (·.2))) :
      HonestReachable L (s.frame :: fs) (s.enter name parent args)
  | leave {f : Frame} {fs : List Frame} {s : Session} (h : HonestReachable L (f :: fs) s) :
      HonestReachable L fs (s.leave f)

theorem HonestStep.step (h : HonestStep L s t) : Step s t := by
  cases h with
  | entry e budget _ h => exact .entry e budget h
  | command budget text h => exact .command budget text h
  | word budget room nested y c h => exact .word budget room nested y c h
  | write line => exact .write line
  | define path value _ h => exact .define path value h
  | assign path value _ h => exact .assign path value h
  | unit symbol value h => exact .unit symbol value h
  | space path h => exact .space path h
  | function f h => exact .function f h
  | remove path h => exact .remove path h
  | cancel => exact .cancel
  | declaration text => exact .declaration text

theorem HonestReachable.reachable (h : HonestReachable L fs s) : Reachable fs s := by
  induction h with
  | start options files => exact .start options files
  | configure _ options files ih => exact ih.configure options files
  | step _ ht ih => exact ih.step ht.step
  | enter _ hcaller hlt args _ ih => exact ih.enter hcaller hlt args
  | leave _ ih => exact ih.leave

theorem backed_start (options : Options) (files : Files) : (start options files).Backed L := by
  refine ⟨UnitSystem.sound_international, fun {p name q} hitem => ?_⟩
  cases eq_unitSystem_of_item?_start hitem

/-- **Every step leads from a backed session to a backed one.** -/
theorem Backed.step (hs : s.Backed L) (h : HonestStep L s t) : s.Leads L t := by
  cases h with
  | entry e budget hgiven h => exact (e.yields_run budget hs hgiven h).1
  | command budget text h => exact (Command.yields_one (backed_activation budget) hs text h).1
  | word budget room nested y c h =>
    have hcontext : ReadingContext.Backed L _ :=
      Expression.backed_context (backed_activation budget) room nested
    exact (Expression.yields_step hcontext hs y c h).1
  | write line => exact hs.write line
  | define path value hvalue h => exact (yields_define hs hvalue h).1
  | assign path value hvalue h => exact (yields_assign hs hvalue h).1
  | unit symbol value h => exact (yields_declareUnit hs symbol value h).1
  | space path h => exact (yields_declareNamespace hs path h).1
  | function f h => exact (yields_registerFunction hs f h).1
  | remove path h => exact (yields_remove hs path h).1
  | cancel => exact hs.setDraft none
  | declaration text => exact hs.setDraft _

theorem backed_of_honestReachable (h : HonestReachable L fs s) : s.Backed L := by
  induction h with
  | start options files => exact backed_start options files
  | @configure s _ options files ih =>
    have hleads : s.Leads L { s with options := options, files := files } :=
      ih.of_items rfl fun hitem => .inl ⟨_, _, hitem⟩
    exact hleads.backed
  | step _ ht ih => exact (ih.step ht).backed
  | enter _ _ _ args hargs ih => exact (ih.enter hargs).backed
  | leave _ ih => exact (ih.leave _).backed

end Session

end QuantityCalc
