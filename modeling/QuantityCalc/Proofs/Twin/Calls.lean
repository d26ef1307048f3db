import QuantityCalc.Proofs.Run.Calls
import QuantityCalc.Proofs.Twin.Follows

/-!
# Calls on both sides

A call runs its body in a frame below the scope that the function was declared in. If that scope is
before the veil, the body starts in sessions that are alike. So if one runner follows another one in
the bodies that it runs, calls and scripts do (`follows_call`, `follows_callFile`,
`follows_runScript`).
-/

namespace QuantityCalc

open Session

variable {A : Accord} {s s' t : Session} {run run' : Runner}

/-- A runner follows another one in what it may be asked to run. -/
structure Runner.Follows (A : Accord) (run run' : Runner) : Prop where
  conforms : Runner.Conforms (fun _ => True) run run
  follows : ∀ {s s' : Session} {ls : List String}, Alike A s s' → A.admits s ls →
    Action.Follows A s s' (run ls) (run' ls)

/-! ## Scripts -/

theorem follows_look (h : Alike A s s') (path : String) :
    Run.Follows A (fun _ => True) s s' (Run.look path) (Run.look path) := by
  have hout := Run.outcome_look path s
  have hout' := Run.outcome_look path s'
  rw [h.files] at hout'
  rcases hfound : s.files.look path with e | found
  · rw [hfound] at hout hout'
    rw [Run.Follows, hout]
    exact Or.inr ⟨A.unseen h.holds hfound, hout'⟩
  · rw [hfound] at hout hout'
    exact .of_outcome hout (fun _ => hout') h

theorem follows_firstFile? (h : Alike A s s') (paths : List String) :
    Run.Follows A (fun _ => True) s s' (firstFile? paths) (firstFile? paths) := by
  induction paths generalizing s s' with
  | nil => exact .pure h none
  | cons path paths ih =>
    refine .bind_any (follows_look h path) fun sighting t t' ht => ?_
    split
    · exact .pure ht (some path)
    · exact ih ht

theorem follows_findScript (h : Alike A s s') (name : String) :
    Run.Follows A (fun _ => True) s s' (findScript name) (findScript name) := by
  refine .get_bind ?_
  rw [h.candidates_eq]
  exact follows_firstFile? h _

theorem follows_readLines (h : Alike A s s') (path : String) :
    Action.Follows A s s' (readLines path) (readLines path) := by
  refine .lift_bind (follows_look h path) (fun sighting t t' _ ht => ?_) fun _ _ hgood =>
    absurd trivial hgood
  split
  · exact .pure ht _
  · exact .throw ht _

theorem readLines_eq_ok {path : String} {ls : List String}
    (h : (readLines path).outcome s = .ok (.ok ls, t)) : t = s ∧ ∃ found text,
      s.files.look path = .ok found ∧ found.text = .ok text ∧
        ls = (Text.lines text.toList).map String.ofList := by
  simp only [readLines, Action.outcome_bind, Action.outcome_liftM, Run.outcome_look] at h
  rcases hfound : s.files.look path with e | found
  · rw [hfound] at h
    cases h
  · rw [hfound] at h
    simp only at h
    rcases htext : found.text with fault | text
    · rw [htext] at h
      cases h
    · rw [htext] at h
      cases h
      exact ⟨rfl, found, text, rfl, htext, rfl⟩

theorem follows_runScript (hrun : Runner.Follows A run run') (h : Alike A s s') (path : String) :
    Action.Follows A s s' (runScript run path) (runScript run' path) := by
  refine .bind (follows_readLines h path) fun ls t t' hread ht => ?_
  obtain ⟨rfl, found, text, hfound, htext, rfl⟩ := readLines_eq_ok hread
  exact hrun.follows ht (A.script h.holds hfound htext)

/-! ## Calls -/

theorem outcome_inFrame_of_le {α : Type} {name : String} {parent : Nat}
    {args : List (String × Quantity)} (body : Action α) (h : s.options.maxCallDepth ≤ s.depth) :
    (inFrame name parent args body).outcome s =
      .ok (.error (.callDepth s.options.maxCallDepth), s) := by
  simp only [inFrame, Action.outcome_bind, Action.outcome_get, h, if_true, Action.outcome_throw]

theorem follows_inFrame (h : Alike A s s') {α : Type} {name : String} {parent : Nat}
    {args : List (String × Quantity)} {body body' : Action α} (hcaller : Caller s name parent)
    (hparent : A.Visible s parent)
    (hconforms : Action.Conforms (fun _ => True) Evolves (s.enter name parent args) body body)
    (hbody : Alike A (s.enter name parent args) (s'.enter name parent args) →
      Action.Follows A (s.enter name parent args) (s'.enter name parent args) body body') :
    Action.Follows A s s' (inFrame name parent args body) (inFrame name parent args body') := by
  rcases Nat.lt_or_ge s.depth s.options.maxCallDepth with hlt | hge
  · have hlt' : s'.depth < s'.options.maxCallDepth :=
      h.depth ▸ Nat.lt_of_lt_of_le hlt h.options.callDepth
    have henter : Alike A (s.enter name parent args) (s'.enter name parent args) :=
      h.toResembles.enter hparent (A.invariant.enter h.holds hcaller hlt)
    have hfollows := hbody henter
    rcases hcase : body.outcome (s.enter name parent args) with e | ⟨r, t⟩
    · refine .of_outcomes (fun hm => ?_) fun hm => ?_
      · rw [outcome_inFrame body hlt, hcase] at hm
        cases hm
      · rw [outcome_inFrame body hlt, hcase] at hm
        cases hm
        rw [outcome_inFrame body' hlt']
        refine (hfollows.halt hcase).imp_right fun ⟨hshared, hbody'⟩ => ⟨hshared, ?_⟩
        rw [hbody']
    · refine .of_outcomes (fun hm hr => ?_) fun hm => ?_
      · rw [outcome_inFrame body hlt, hcase] at hm
        cases hm
        obtain ⟨t', hbody', ht⟩ := hfollows.ok hcase hr
        rw [outcome_inFrame body' hlt', hbody']
        exact ⟨_, rfl, h.leave (hconforms.2 hcase).1 ht⟩
      · rw [outcome_inFrame body hlt, hcase] at hm
        cases hm
  · refine .of_outcome (outcome_inFrame_of_le body hge) (fun hr => ?_) h
    have hlimit := (h.options.errors (Accord.errors_of_accepts hr)).2.1
    have hge' : s'.options.maxCallDepth ≤ s'.depth := by rwa [hlimit, h.depth]
    rw [Run.outcome_action, outcome_inFrame_of_le body' hge', hlimit]

theorem follows_callUser (hrun : Runner.Follows A run run') (h : Alike A s s') {f : UserFunction}
    {scope : Nat} (hcaller : Caller s f.name scope) (hscope : A.Visible s scope)
    (args : List Quantity) :
    Action.Follows A s s' (callUser run f scope args) (callUser run' f scope args) := by
  unfold callUser
  split
  · exact .throw h _
  · refine .get_bind ?_
    rw [h.bindArguments_eq]
    refine .except_bind h fun bound _ => ?_
    refine .bind (follows_inFrame h hcaller hscope (hrun.conforms _ trivial) fun hu => ?_)
      fun value? u u' _ hu => .pure hu _
    exact hrun.follows hu (A.body h.holds f.body)

theorem follows_call (hrun : Runner.Follows A run run') (h : Alike A s s') {home : Home}
    (hhome : A.Sees s home) (name : String) (args : List Quantity) :
    Action.Follows A s s' (call run home name args) (call run' home name args) := by
  unfold call
  split
  · split
    · exact .except h _
    · exact .throw h _
  · refine .get_bind ?_
    rw [h.function?_eq hhome]
    split
    · rename_i f scope hf
      exact follows_callUser hrun h (.function hf) (sees_of_function? hhome h.holds hf) args
    · exact .throw h _

theorem follows_callFile (hrun : Runner.Follows A run run') (h : Alike A s s') (name : String) :
    Action.Follows A s s' (callFile run name) (callFile run' name) := by
  refine .lift_bind (follows_findScript h _) (fun path? t t' _ ht => ?_) fun _ _ hgood =>
    absurd trivial hgood
  split
  · exact .pure ht none
  · refine .bind (follows_readLines ht _) fun ls u u' _ hu => ?_
    refine .bind (follows_inFrame hu (.script name) hu.visible_global (hrun.conforms ls trivial)
      fun hv => hrun.follows hv (A.body hu.holds ls)) fun value? v v' _ hv => ?_
    exact .pure hv _

end QuantityCalc
