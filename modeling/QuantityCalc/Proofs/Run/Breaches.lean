import QuantityCalc.Proofs.Command.Errors
import QuantityCalc.Proofs.Run.Entries

/-!
# No breaches

Nothing that is asked of a session from the outside has a breach as its error, and what is read of a
text is a stream, at the top level and among the arguments of calls (`Entry.not_internal_of_run`).
-/

namespace QuantityCalc

open Postfix Session

/-- The error of an outcome. -/
def failure? {α : Type} : Except Error α → Option Error
  | .ok _ => none
  | .error e => some e

theorem Meets.not_internal {α : Type} {P : α → Prop} {r : Except Error α} (h : Meets P r)
    (breach : Breach) : failure? r ≠ some (.internal breach) := by
  cases r with
  | ok a => exact nofun
  | error e => exact fun heq => h breach (Option.some.inj heq)

namespace Entry

variable {runner : Runner}

/-- The error that an entry leads to. A stream of tokens carries its error itself. -/
def failure? : (e : Entry) → e.Result → Option Error
  | line _, r => QuantityCalc.failure? r
  | lines _, r | script _, r => QuantityCalc.failure? r
  | expression _, parsed | converted _, parsed => QuantityCalc.failure? parsed.value
  | list _, parsed => QuantityCalc.failure? parsed.value
  | tokens _, _ => none
  | function .., r => QuantityCalc.failure? r
  | file _, r => QuantityCalc.failure? r

theorem grants_run (hrunner : Runner.Genuine runner) (e : Entry) :
    Run.Grants (fun r => ∀ breach, e.failure? r ≠ some (.internal breach)) (e.runWith runner) := by
  have htop := Expression.grants_topLevel hrunner
  cases e with
  | line l => exact Run.Grants.mono (Command.grants_line hrunner l) fun _ hr => hr.not_internal
  | lines ls => exact Run.Grants.mono (Command.grants_lines hrunner ls) fun _ hr => hr.not_internal
  | script path => exact Run.Grants.mono (grants_runScript hrunner path) fun _ hr => hr.not_internal
  | expression t =>
    refine .bind htop fun context hcontext => ?_
    exact (Expression.grants_value hcontext t).mono fun _ hr => hr.1.not_internal
  | converted t =>
    refine .bind htop fun context hcontext => ?_
    exact (Expression.grants_converted hcontext t).mono fun _ hr => hr.1.not_internal
  | list t =>
    refine .bind htop fun context hcontext => ?_
    exact (Expression.grants_list hcontext t).mono fun _ hr => hr.1.not_internal
  | tokens t => exact (Run.Grants.any _).mono fun _ _ => nofun
  | function home name args =>
    exact Run.Grants.mono (grants_call hrunner home name args) fun _ hr => hr.not_internal
  | file name => exact Run.Grants.mono (grants_callFile hrunner name) fun _ hr => hr.not_internal

/-- **No entry leads to a breach, and what is read of a text is a stream.** The breaches are those
of reading lexemes, of the evaluation of streams and of readers that do not get on. -/
theorem not_internal_of_run (budget : Nat) (s : Session) :
    (∀ (e : Entry) {r : e.Result} {t : Session}, (e.run budget).outcome s = .ok (r, t) →
      ∀ breach, e.failure? r ≠ some (.internal breach)) ∧
    (∀ (text : Text) {items : List Postfix.Item} {place : Cursor} {t : Session},
      (readTokens budget text).outcome s = .ok ((items, place), t) →
      ∃ (tokens : List Token) (report? : Option Error),
        items = tokens.map .ok ++ report?.toList.map .error ∧
          IsStream text.length tokens report?) ∧
    ∀ (room : Nat) (nested : Bool) (text : Text) {fed : Expression.Fed (List Postfix.Item)}
      {t : Session},
      (Expression.feed ⟨activation budget, Expression.arguments (activation budget) room, nested⟩
        (fun items before => .ok (before ++ items)) [] {} (.start text)).outcome s = .ok (fed, t) →
      ∃ (tokens : List Token) (report? : Option Error),
        fed.state = .ok (tokens.map .ok ++ report?.toList.map .error) ∧
          IsStream text.length tokens report? := by
  have hrunner := genuine_activation budget
  refine ⟨fun e r t h => ?_, fun text items place t h => ?_, fun room nested text fed t h => ?_⟩
  · rw [run_eq_runWith] at h
    exact e.grants_run hrunner h
  · have hread : Run.Grants (fun x => ∃ (tokens : List Token) (report? : Option Error),
        x.1 = tokens.map .ok ++ report?.toList.map .error ∧ IsStream text.length tokens report?)
        (readTokens budget text) := by
      refine .bind (Expression.grants_topLevel hrunner) fun context hcontext => ?_
      refine .bind (Expression.grants_stream hcontext text) ?_
      rintro fed ⟨tokens, report?, hstate, hstream⟩
      refine .pure ⟨tokens, report?, ?_, hstream⟩
      rw [hstate]
      rfl
    exact hread h
  · exact Expression.grants_stream (Expression.genuine_context hrunner room nested) text h

/-- The stream of a sign without an operand. -/
def cutSign : List Postfix.Item := [.ok (.operator .plus), .error (.unterminated 1 none)]

theorem readTokens_sign (s : Session) :
    ∃ place, (readTokens 0 ['+']).outcome s = .ok ((cutSign, place), s) := by
  let context : ReadingContext :=
    ⟨activation 0, Expression.arguments (activation 0) s.options.maxNesting, false⟩
  have htop : (Expression.topLevel (activation 0)).outcome s = .ok (context, s) := rfl
  have hsign : (Expression.step context {}).outcome (.start ['+']) s =
      .ok ((.ok (.more [] ⟨[.plus], .operator⟩), ⟨1, []⟩), s) := rfl
  have hend : (Expression.step context ⟨[.plus], .operator⟩).outcome ⟨1, []⟩ s =
      .ok ((.ok (.last cutSign), ⟨1, []⟩), s) := rfl
  refine ⟨⟨1, []⟩, ?_⟩
  simp only [readTokens, Run.outcome_bind, htop, Run.outcome_pure]
  rw [Expression.feed]
  simp only [Run.outcome_bind, Run.outcome_reading, hsign]
  rw [if_pos (by decide), Expression.feed]
  simp only [Run.outcome_bind, Run.outcome_reading, hend]
  rfl

theorem not_internal_of_run_sample :
    (∃ (tokens : List Token) (report? : Option Error),
      cutSign = tokens.map .ok ++ report?.toList.map .error ∧ IsStream 1 tokens report?) ∧
    ((function .builtins "f" []).run 0).outcome (start {} .unknown) =
      .ok (.error (.unknownName "f"), start {} .unknown) ∧
    ∀ breach, (function .builtins "f" []).failure? (.error (.unknownName "f")) ≠
      some (.internal breach) := by
  obtain ⟨hentry, hstream, -⟩ := not_internal_of_run 0 (start {} .unknown)
  obtain ⟨place, hsign⟩ := readTokens_sign (start {} .unknown)
  have hcall : ((function .builtins "f" []).run 0).outcome (start {} .unknown) =
      .ok (.error (.unknownName "f"), start {} .unknown) := rfl
  exact ⟨hstream ['+'] hsign, hcall, hentry _ hcall⟩

end Entry

end QuantityCalc
