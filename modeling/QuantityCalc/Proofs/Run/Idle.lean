import QuantityCalc.Proofs.Run.Commands

/-!
# Runs without bodies

With no budget for activations, a run halts where the body of a function or a script would be run.
So a call has no outcome then, or it is refused before its body is run and leaves the session as it
is (`serves_idle`). Since nothing but calls changes the session while expressions are read, reading
them leaves it as it is, too.
-/

namespace QuantityCalc

open Session

variable {α : Type} {s t : Session}

/-- A step leaves the session as it is, if it has an outcome. -/
abbrev Action.Rests (s : Session) (m : Action α) : Prop := Action.Conforms (fun _ => True) Eq s m m

theorem Action.Conforms.eq {m : Action α} {r : Except Error α} (h : m.Rests s)
    (hm : m.outcome s = .ok (r, t)) : t = s :=
  (h.2 hm).1.symm

/-- The frame of a call is not entered, or the body halts. -/
theorem rests_inFrame (name : String) (parent : Nat) (args : List (String × Quantity))
    (ls : List String) : (inFrame name parent args (activation 0 ls)).Rests s := by
  refine .still trivial fun {r t} h => ?_
  rcases Nat.lt_or_ge s.depth s.options.maxCallDepth with hlt | hge
  · rw [outcome_inFrame _ hlt] at h
    cases h
  · simp only [inFrame, Action.outcome_bind, Action.outcome_get, hge, if_true,
      Action.outcome_throw] at h
    cases h
    rfl

theorem rests_callUser (f : UserFunction) (scope : Nat) (args : List Quantity) :
    (callUser (activation 0) f scope args).Rests s := by
  unfold callUser
  split
  · exact .throw trivial _
  · refine .get_bind (.except_bind trivial fun bound _ => ?_)
    exact .bind (rests_inFrame _ _ _ _) fun _ _ _ => .pure trivial _

theorem rests_call (home : Home) (name : String) (args : List Quantity) :
    (call (activation 0) home name args).Rests s := by
  unfold call
  split
  · split
    · exact .except trivial _
    · exact .throw trivial _
  · refine .get_bind ?_
    split
    · exact rests_callUser _ _ _
    · exact .throw trivial _

theorem rests_callFile (name : String) : (callFile (activation 0) name).Rests s := by
  refine .bind (.lift (conforms_findScript trivial _)) fun path? t _ => ?_
  split
  · exact .pure trivial none
  · refine .bind (conforms_readLines trivial _) fun ls u _ => ?_
    exact .bind (rests_inFrame _ _ _ _) fun _ _ _ => .pure trivial _

/-- **Without a budget, calls leave the session as it is.** -/
theorem serves_idle : Runner.Serves (fun _ => True) Eq (activation 0) (activation 0) :=
  ⟨fun _ home name args _ => rests_call home name args, fun _ name _ => rests_callFile name⟩

end QuantityCalc
