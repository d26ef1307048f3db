import QuantityCalc.Proofs.Run.Conforms
import QuantityCalc.Proofs.Session.Evolution

/-!
# Calls and scripts
-/

namespace QuantityCalc

open Session

variable {I : Session → Prop} {R : Session → Session → Prop} [IsPreorder Session R] {s : Session}
  {run run' : Runner}

/-- Two ways to run bodies are alike, and they change the session as commands may. -/
def Runner.Conforms (I : Session → Prop) (run run' : Runner) : Prop :=
  ∀ ⦃s : Session⦄ (ls : List String), I s → Action.Conforms I Evolves s (run ls) (run' ls)

theorem conforms_look (hs : I s) (path : String) :
    Run.Conforms I R s (Run.look path) (Run.look path) := by
  refine .still hs fun {a t} h => ?_
  have hlook : (Run.look path).outcome s = (s.files.look path).bind fun a => .ok (a, s) := rfl
  rw [hlook] at h
  cases hfiles : s.files.look path <;> rw [hfiles] at h <;> cases h
  rfl

theorem conforms_firstFile? (hs : I s) (paths : List String) :
    Run.Conforms I R s (firstFile? paths) (firstFile? paths) := by
  induction paths generalizing s with
  | nil => exact .pure hs none
  | cons path paths ih =>
    refine .bind (conforms_look hs path) fun sighting t ht => ?_
    split
    · exact .pure ht (some path)
    · exact ih ht

theorem conforms_findScript (hs : I s) (name : String) :
    Run.Conforms I R s (findScript name) (findScript name) :=
  .bind (.still hs fun h => by cases h; rfl) fun _ _ ht => conforms_firstFile? ht _

theorem conforms_readLines (hs : I s) (path : String) :
    Action.Conforms I R s (readLines path) (readLines path) := by
  refine .bind (.lift (conforms_look hs path)) fun sighting t ht => ?_
  split
  · exact .pure ht _
  · exact .throw ht _

theorem conforms_runScript (hrun : Runner.Conforms I run run') (hs : I s) (path : String) :
    Action.Conforms I Evolves s (runScript run path) (runScript run' path) :=
  .bind (conforms_readLines hs path) fun ls _ ht => hrun ls ht

theorem outcome_inFrame {α : Type} {name : String} {parent : Nat}
    {args : List (String × Quantity)} (body : Action α) (h : s.depth < s.options.maxCallDepth) :
    (inFrame name parent args body).outcome s = match body.outcome (s.enter name parent args) with
      | .ok (r, t) => .ok (r, t.leave s.frame)
      | .error h => .error h := by
  simp only [inFrame, Action.outcome_bind, Action.outcome_get, Nat.not_le_of_lt h, if_false,
    Action.outcome_set, Action.outcome_lift, Run.outcome_action]
  cases body.outcome (s.enter name parent args) <;> simp

theorem conforms_inFrame (hI : Invariant I) {α : Type} {name : String} {parent : Nat}
    {args : List (String × Quantity)} {body body' : Action α} (hs : I s)
    (hcaller : Caller s name parent)
    (hbody : I (s.enter name parent args) →
      Action.Conforms I Evolves (s.enter name parent args) body body') :
    Action.Conforms I Evaluates s (inFrame name parent args body)
      (inFrame name parent args body') := by
  rcases Nat.lt_or_ge s.depth s.options.maxCallDepth with hlt | hge
  · obtain ⟨heq, hbody⟩ := hbody (hI.enter hs hcaller hlt)
    rw [Action.Conforms, Run.Conforms, Run.outcome_action, Run.outcome_action,
      outcome_inFrame body hlt, outcome_inFrame body' hlt]
    rw [Run.outcome_action, Run.outcome_action] at heq
    rw [heq]
    refine ⟨rfl, fun {r t} h => ?_⟩
    rcases hout : body.outcome (s.enter name parent args) with e | ⟨r', u⟩
    · rw [hout] at h
      cases h
    · rw [hout] at h
      cases h
      obtain ⟨he, hu⟩ := hbody hout
      exact ⟨evaluates_of_call he, hI.leave hs he hu⟩
  · refine .get_bind ?_
    simp only [hge, if_true]
    exact .throw hs _

theorem conforms_callUser (hI : Invariant I) (hrun : Runner.Conforms I run run') (hs : I s)
    {f : UserFunction} {scope : Nat} (hcaller : Caller s f.name scope) (args : List Quantity) :
    Action.Conforms I Evaluates s (callUser run f scope args) (callUser run' f scope args) := by
  unfold callUser
  split
  · exact .throw hs _
  · refine .get_bind (.except_bind hs fun bound _ => ?_)
    exact .bind (conforms_inFrame hI hs hcaller fun hu => hrun _ hu) fun _ _ ht => .pure ht _

theorem conforms_call (hI : Invariant I) (hrun : Runner.Conforms I run run') (hs : I s)
    (home : Home) (name : String) (args : List Quantity) :
    Action.Conforms I Evaluates s (call run home name args) (call run' home name args) := by
  unfold call
  split
  · split
    · exact .except hs _
    · exact .throw hs _
  · refine .get_bind ?_
    split
    · rename_i h
      exact conforms_callUser hI hrun hs (.function h) args
    · exact .throw hs _

theorem conforms_callFile (hI : Invariant I) (hrun : Runner.Conforms I run run') (hs : I s)
    (name : String) :
    Action.Conforms I Evaluates s (callFile run name) (callFile run' name) := by
  refine .bind (.lift (conforms_findScript hs _)) fun path? t ht => ?_
  split
  · exact .pure ht none
  · refine .bind (conforms_readLines ht _) fun ls u hu => ?_
    refine .bind (conforms_inFrame hI hu (.script name) fun hv => hrun ls hv) fun value? _ hv => ?_
    exact .pure hv _

/-- Two ways to run bodies make calls alike, and the calls keep to a relation. -/
structure Runner.Serves (I : Session → Prop) (R : Session → Session → Prop) (run run' : Runner) :
    Prop where
  call : ∀ ⦃s : Session⦄ (home : Home) (name : String) (args : List Quantity), I s →
    Action.Conforms I R s (call run home name args) (call run' home name args)
  callFile : ∀ ⦃s : Session⦄ (name : String), I s →
    Action.Conforms I R s (callFile run name) (callFile run' name)

theorem Runner.Conforms.serves (hrun : Runner.Conforms I run run') (hI : Invariant I) :
    Runner.Serves I Evaluates run run' :=
  ⟨fun _ home name args hs => conforms_call hI hrun hs home name args,
    fun _ name hs => conforms_callFile hI hrun hs name⟩

end QuantityCalc
