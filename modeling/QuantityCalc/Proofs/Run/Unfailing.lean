import QuantityCalc.Proofs.Expression.Located
import QuantityCalc.Proofs.Session.Errors
import QuantityCalc.Proofs.Twin.Options

/-!
# Runs in which no body fails

If the body of a function or a script fails, its error tells a place of a line of the body.
`Runner.unfailing run` runs bodies as `run` does, but it halts where a body fails. So calls report
no places then (`stays_unfailing`), and a command that does not halt has the outcome that it has
otherwise (`Command.outcome_of_unfailing`).
-/

namespace QuantityCalc

open Session

variable {α : Type} {run : Runner} {I : Session → Prop} {s t : Session} {text : Text}

/-- Runs bodies with a runner, and halts where a body fails. -/
def Runner.unfailing (run : Runner) : Runner := fun ls => do
  match ← ExceptT.lift (run ls).run with
  | .ok value? => return value?
  | .error _ => ExceptT.lift (throw .exhausted)

theorem Runner.outcome_unfailing (run : Runner) (ls : List String) (s : Session) :
    (run.unfailing ls).outcome s = match (run ls).outcome s with
      | .ok (.ok value?, t) => .ok (.ok value?, t)
      | .ok (.error _, _) => .error .exhausted
      | .error halt => .error halt := by
  simp only [unfailing, Action.outcome_bind, Action.outcome_lift, Run.outcome_action]
  rcases (run ls).outcome s with halt | ⟨e | value?, t⟩
  · rfl
  · rfl
  · rfl

theorem Runner.unfailing_ne_error {ls : List String} {e : Error} :
    (run.unfailing ls).outcome s ≠ .ok (.error e, t) := by
  rw [outcome_unfailing]
  split
  · nofun
  · nofun
  · nofun

/-! ## Errors of calls -/

theorem Error.Plain.placedIn {e : Error} (h : e.Plain) : e.PlacedIn False text := by
  cases e with
  | unit e => exact False.elim
  | unexpectedChar | invalidNumber | malformed | unterminated | internal => exact False.elim h
  | _ => trivial

theorem Plainly.locates {r : Except Error α} (h : Plainly r) :
    Locates False text (fun _ => True) r := by
  cases r with
  | ok a => trivial
  | error e => exact Error.Plain.placedIn h

/-- Of what happens in any sessions, the errors alone matter. -/
theorem Action.Stays.of_errors {units : Prop} {m : Action α}
    (h : ∀ {s t : Session} {e : Error}, m.outcome s = .ok (.error e, t) → e.PlacedIn units text) :
    Action.Stays units (fun _ => True) text (fun _ => True) m := by
  intro s t r _ hm
  cases r with
  | ok a => exact ⟨trivial, trivial⟩
  | error e => exact ⟨trivial, h hm⟩

theorem Run.Stays.any (m : Run α) : Run.Stays (fun _ => True) (fun _ => True) m :=
  fun _ _ _ _ _ => ⟨trivial, trivial⟩

theorem stays_readLines (path : String) :
    Action.Stays False (fun _ => True) text (fun _ => True) (readLines path) := by
  refine .lift_bind (.any _) fun found _ => ?_
  split
  · exact .pure trivial
  · exact .throw trivial

theorem stays_inFrame (name : String) (parent : Nat) (args : List (String × Quantity))
    (ls : List String) :
    Action.Stays False (fun _ => True) text (fun _ => True)
      (inFrame name parent args (run.unfailing ls)) := by
  refine .of_errors fun {s t e} hm => ?_
  rcases Nat.lt_or_ge s.depth s.options.maxCallDepth with hlt | hge
  · rw [outcome_inFrame _ hlt] at hm
    rcases hbody : (run.unfailing ls).outcome (s.enter name parent args) with halt | ⟨r, u⟩
    · rw [hbody] at hm
      cases hm
    · rw [hbody] at hm
      cases hm
      exact absurd hbody Runner.unfailing_ne_error
  · simp only [inFrame, Action.outcome_bind, Action.outcome_get, hge, if_true,
      Action.outcome_throw] at hm
    cases hm
    trivial

theorem stays_callUser (f : UserFunction) (scope : Nat) (args : List Quantity) :
    Action.Stays False (fun _ => True) text (fun _ => True)
      (callUser run.unfailing f scope args) := by
  unfold callUser
  split
  · exact .throw trivial
  · refine .get_bind fun s _ => ?_
    refine .bind (.except (plainly_bindArguments s f f.parameters args).locates) fun bound _ => ?_
    exact .bind (stays_inFrame f.name scope bound f.body) fun _ _ => .pure trivial

/-- **As long as no body fails, calls report no places.** -/
theorem stays_unfailing (run : Runner) : Runner.Stays False (fun _ => True) run.unfailing := by
  refine ⟨fun t home name args => ?_, fun t name => ?_⟩
  · unfold call
    split
    · split
      · exact .except (Builtin.locates_call _ _)
      · exact .throw trivial
    · refine .get_bind fun s _ => ?_
      split
      · exact stays_callUser _ _ args
      · exact .throw trivial
  · refine .lift_bind (.any _) fun path? _ => ?_
    split
    · exact .pure trivial
    · refine .bind (stays_readLines _) fun ls _ => ?_
      exact .bind (stays_inFrame name global [] ls) fun _ _ => .pure trivial

theorem stays_runScript_unfailing (run : Runner) (path : String) :
    Action.Stays False (fun _ => True) text (fun _ => True) (runScript run.unfailing path) :=
  .bind (stays_readLines path) fun _ _ => .of_errors fun hm =>
    absurd hm Runner.unfailing_ne_error

/-! ## Outcomes of commands -/

theorem follows_unfailing (budget : Nat) :
    Runner.Follows .spending (activation budget).unfailing (activation budget) := by
  have hself : Runner.Follows .spending (activation budget) (activation budget) :=
    follows_activation (Nat.le_refl _) (Or.inl rfl)
  refine ⟨fun s ls _ => ⟨rfl, fun {r t} hm => ?_⟩, fun {s s' ls} h hadmits => ?_⟩
  · rw [Run.outcome_action, Runner.outcome_unfailing] at hm
    split at hm
    · rename_i hrun
      cases hm
      exact (hself.conforms ls trivial).2 hrun
    · cases hm
    · cases hm
  · refine .of_outcomes (fun {r t} hm hr => ?_) fun {halt} hm => ?_
    · rw [Runner.outcome_unfailing] at hm
      split at hm
      · rename_i hrun
        cases hm
        exact (hself.follows h hadmits).ok hrun hr
      · cases hm
      · cases hm
    · rw [Runner.outcome_unfailing] at hm
      split at hm
      · cases hm
      · cases hm
        exact Or.inl rfl
      · rename_i hrun
        cases hm
        have hfollows := hself.follows h hadmits
        rw [Action.Follows, Run.Follows, Run.outcome_action, hrun] at hfollows
        exact hfollows

namespace Command

variable {w : Text} {budget : Nat}

/-- A command that halts where a body fails, and does not halt, has the outcome that it has
otherwise. -/
theorem outcome_of_unfailing {r : Except Error Outcome}
    (h : (one (activation budget).unfailing w).outcome s = .ok (r, t)) :
    (one (activation budget) w).outcome s = .ok (r, t) := by
  have hself : Alike .spending s s := alike_self rfl trivial
  obtain ⟨t', hout, ht⟩ := (follows_one (follows_unfailing budget) hself w).ok h (Or.inl trivial)
  rw [hout, ht.eq_of_strict rfl trivial trivial]

end Command

end QuantityCalc
