import QuantityCalc.Proofs.Run.Entries
import QuantityCalc.Proofs.Session.Valid

/-!
# Reachable sessions

`Reachable fs s` says that the session `s` can be met while the calls with the frames `fs` are
running, the innermost first: a new session is met, what can be asked of a session from the outside
and every part of it lead on (`Step`), and calls begin and end. Outside of calls the options and the
file system may change.

Every reachable session is valid (`valid_of_reachable`). What is needed about the calls that are
running is in `Stack`: the innermost one has evolved from its beginning in a valid session, and with
that session the same holds of the calls around it.
-/

namespace QuantityCalc.Session

variable {I : Session → Prop} {s t : Session} {f : Frame} {fs : List Frame}

/-- What happens in a session between the beginning and the end of a call. -/
inductive Step (s : Session) : Session → Prop where
  | entry (e : Entry) (budget : Nat) {r : e.Result} {t : Session}
      (h : (e.run budget).outcome s = .ok (r, t)) : Step s t
  | command (budget : Nat) (text : Text) {r : Except Error Command.Outcome} {t : Session}
      (h : (Command.one (activation budget) text).outcome s = .ok (r, t)) : Step s t
  | word (budget room : Nat) (nested : Bool) (y : Yard) (c : Cursor)
      {x : Except Error Round × Cursor} {t : Session}
      (h : (Expression.step ⟨activation budget, Expression.arguments (activation budget) room,
        nested⟩ y).outcome c s = .ok (x, t)) : Step s t
  | write (line : String) : Step s (s.write line)
  | define (path : String) (value : Quantity) {r : Except Error Unit} {t : Session}
      (h : (Session.define path value).outcome s = .ok (r, t)) : Step s t
  | assign (path : String) (value : Quantity) {r : Except Error Unit} {t : Session}
      (h : (Session.assign path value).outcome s = .ok (r, t)) : Step s t
  | unit (symbol : String) (value : Quantity) {r : Except Error Unit} {t : Session}
      (h : (declareUnit symbol value).outcome s = .ok (r, t)) : Step s t
  | space (path : String) {r : Except Error Nat} {t : Session}
      (h : (declareNamespace path).outcome s = .ok (r, t)) : Step s t
  | function (f : UserFunction) {r : Except Error Unit} {t : Session}
      (h : (registerFunction f).outcome s = .ok (r, t)) : Step s t
  | remove (path : String) {r : Except Error Item} {t : Session}
      (h : (Session.remove path).outcome s = .ok (r, t)) : Step s t
  | cancel : Step s s.cancelDraft.2
  | declaration (text : Text) : Step s (s.continueDeclaration text).2

/-- The sessions that can be met, each with the frames of the calls that are running. -/
inductive Reachable : List Frame → Session → Prop where
  | start (options : Options) (files : Files) : Reachable [] (start options files)
  | configure {s : Session} (h : Reachable [] s) (options : Options) (files : Files) :
      Reachable [] { s with options := options, files := files }
  | step {fs : List Frame} {s t : Session} (h : Reachable fs s) (ht : Step s t) : Reachable fs t
  | enter {fs : List Frame} {s : Session} {name : String} {parent : Nat} (h : Reachable fs s)
      (hcaller : Caller s name parent) (hlt : s.depth < s.options.maxCallDepth)
      (args : List (String × Quantity)) : Reachable (s.frame :: fs) (s.enter name parent args)
  | leave {f : Frame} {fs : List Frame} {s : Session} (h : Reachable (f :: fs) s) :
      Reachable fs (s.leave f)

/-- Every step keeps to what commands may do, and it preserves invariants. -/
theorem evolves_of_step (hI : Invariant I) (hs : I s) (h : Step s t) : Evolves s t ∧ I t := by
  have hmove {t : Session} (h : Move s t) : Evolves s t ∧ I t := ⟨evolves_of_move h, hI.move hs h⟩
  have hmoves {t : Session} (h : Moves s t) : Evolves s t ∧ I t :=
    ⟨evolves_of_moves h, hI.moves hs h⟩
  have hrun (budget : Nat) := conforms_activation hI budget
  cases h with
  | entry e budget h =>
    rw [e.run_eq_runWith] at h
    exact (e.conforms hI (hrun budget) hs).2 h
  | command budget text h => exact (Command.conforms_one hI (hrun budget) hs text).2 h
  | word budget room nested y c h =>
    have hserves := (hrun budget).serves hI
    have hcontext : ReadingContext.Conforms I Evaluates
        ⟨activation budget, Expression.arguments (activation budget) room, nested⟩
        ⟨activation budget, Expression.arguments (activation budget) room, nested⟩ :=
      ⟨hserves, fun t ht => Expression.conforms_arguments hserves room ht t, rfl⟩
    obtain ⟨he, ht⟩ := (Expression.conforms_step hcontext hs y c).2 h
    exact ⟨he.toEvolves, ht⟩
  | write line => exact hmove (.write line)
  | define path value h => exact hmoves (moves_of_define h)
  | assign path value h => exact hmoves (moves_of_assign h)
  | unit symbol value h => exact hmoves (moves_of_declareUnit h)
  | space path h => exact hmoves (moves_of_declareNamespace h)
  | function f h => exact hmoves (moves_of_registerFunction h)
  | remove path h => exact hmoves (moves_of_remove h)
  | cancel => exact hmove (move_of_cancelDraft s)
  | declaration text => exact hmove (move_of_continueDeclaration s text)

/-- The calls that are running began in valid sessions, each in the course of the one around it. -/
inductive Stack : List Frame → Session → Prop where
  | base {s : Session} (hs : Valid s) (hdepth : s.depth = 0) : Stack [] s
  | call {fs : List Frame} {s t : Session} {name : String} {parent : Nat}
      {args : List (String × Quantity)} (h : Stack fs s) (hs : Valid s)
      (he : Evolves (s.enter name parent args) t) (ht : Valid t) : Stack (s.frame :: fs) t

theorem Stack.valid (h : Stack fs s) : Valid s := by
  cases h with
  | base hs _ => exact hs
  | call _ _ _ ht => exact ht

theorem Stack.evolves (h : Stack fs s) (he : Evolves s t) (ht : Valid t) : Stack fs t := by
  cases h with
  | base _ hdepth => exact .base ht (he.depth.trans hdepth)
  | call h hs he' _ => exact .call h hs (he'.trans he) ht

theorem Stack.leave (h : Stack (f :: fs) t) : Stack fs (t.leave f) := by
  cases h with
  | call h hs he ht => exact h.evolves (evaluates_of_call he).toEvolves (valid_leave hs he ht)

theorem stack_of_reachable (h : Reachable fs s) : Stack fs s := by
  induction h with
  | start options files => exact .base (valid_start options files) rfl
  | configure _ options files ih =>
    cases ih with
    | base hs hdepth =>
      exact .base (valid_of_scopes_eq hs rfl rfl hs.current) hdepth
  | step _ ht ih =>
    obtain ⟨he, hvalid⟩ := evolves_of_step invariant_valid ih.valid ht
    exact ih.evolves he hvalid
  | enter _ hcaller _ args ih =>
    have hs := ih.valid
    exact .call ih hs (.refl _) (valid_enter hs (lt_size_of_caller hs hcaller))
  | leave _ ih => exact ih.leave

open Classical in
/-- **Every reachable session is valid**, also within calls: nothing in it refers to what is not
there, and looking up a name goes from each scope to its parent and ends in the global scope. It
stays so when the innermost call ends, and whatever is asked of it, all bodies that are run start
and end in valid sessions. -/
theorem valid_of_reachable (h : Reachable fs s) :
    Valid s ∧
      (∀ p < s.scopes.size, (s.chain p).getLast? = some global ∧
        ∀ {found : Scope} {q : Nat}, s.scopes[p]? = some found → found.parent? = some q →
          s.chain p = p :: s.chain q) ∧
      (∀ f ∈ fs.head?, Valid (s.leave f)) ∧
      ∀ (e : Entry) (budget : Nat) (alarm : Halt),
        (e.runWith (watched Valid alarm budget)).outcome s = (e.run budget).outcome s := by
  have hstack := stack_of_reachable h
  have hs := hstack.valid
  refine ⟨hs, fun p hp => ⟨getLast?_chain hs hp, fun hfound hparent => ?_⟩, fun f hf => ?_,
    fun e budget alarm => e.conforms_watched invariant_valid id alarm budget hs⟩
  · exact chain_eq_cons hs hfound hparent
  · cases fs with
    | nil => cases hf
    | cons f fs =>
      cases hf
      exact hstack.leave.valid

theorem registerFunction_sample :
    (registerFunction ⟨"f", [], []⟩).outcome (start { maxCallDepth := 1 } .unknown) =
      .ok (.ok (), Entry.sample) := by
  have hnone : (start { maxCallDepth := 1 } .unknown).item? global "f" = none :=
    item?_start (by decide)
  have hcurrent : (start { maxCallDepth := 1 } .unknown).current = global := rfl
  rw [registerFunction_eq_change, Action.outcome_change]
  simp only [afterRegisterFunction, hcurrent, hnone]
  rfl

theorem valid_of_reachable_sample :
    Reachable [Entry.sample.frame] (Entry.sample.enter "f" global []) ∧
      Valid (Entry.sample.enter "f" global []) ∧
      (Entry.sample.enter "f" global []).chain 1 = [1, global] ∧
      Valid ((Entry.sample.enter "f" global []).leave Entry.sample.frame) := by
  have hsample : Reachable [] Entry.sample :=
    (Reachable.start _ _).step (.function _ registerFunction_sample)
  have hcall := hsample.enter (.function Entry.function?_sample) Nat.one_pos []
  obtain ⟨hs, hchain, hleave, -⟩ := valid_of_reachable hcall
  refine ⟨hcall, hs, ?_, hleave _ rfl⟩
  rw [(hchain 1 (by decide)).2 rfl rfl, chain_global hs]

end QuantityCalc.Session
