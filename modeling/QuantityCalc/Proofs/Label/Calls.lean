import QuantityCalc.Proofs.Label.Yields
import QuantityCalc.Proofs.Run.Calls
import QuantityCalc.Proofs.Session.Valid

/-!
# Calls of backed quantities

A call binds its arguments, and its frame is released at its end. If the arguments are backed, then
so are the session and the value that the call leads to, as far as the bodies that are run lead to
nothing else (`Runner.Backed`).
-/

namespace QuantityCalc

open Session

variable {L : Labelling} {s t : Session} {qs : List Quantity} {p scope parent : Nat}
  {name : String} {item : Item} {args : List (String × Quantity)} {run : Runner}

/-! ## Changes of a session -/

namespace Session

theorem Backed.insert (hs : s.Backed L) (hitem : ∀ q, item = .var q → L.Backs s.system q.unit) :
    s.Leads L (s.insert p name item) := by
  refine hs.of_items rfl fun {_ _ q} h => ?_
  rcases item?_insert h with ⟨-, -, heq⟩ | hold
  · exact .inr (hitem q heq.symm)
  · exact .inl ⟨_, _, hold⟩

theorem Backed.enter (hs : s.Backed L) (hargs : L.BacksAll s.system (args.map (·.2))) :
    s.Leads L (s.enter name parent args) := by
  refine hs.of_items rfl fun h => ?_
  rcases item?_enter_cases h with ⟨arg, hmem, heq⟩ | hold
  · cases heq
    exact .inr (hargs _ (List.mem_map_of_mem hmem))
  · exact .inl ⟨_, _, hold⟩

theorem Backed.leave (hs : s.Backed L) (f : Frame) : s.Leads L (s.leave f) :=
  hs.of_items rfl fun h => .inl ⟨_, _, (item?_leave h).2⟩

/-- Arguments that are backed are bound to values that are backed. -/
theorem Backed.backsAll_bindArguments (hs : s.Backed L) {f : UserFunction} {ps : List Parameter}
    (hqs : L.BacksAll s.system qs) (h : s.bindArguments f ps qs = .ok args) :
    L.BacksAll s.system (args.map (·.2)) := by
  induction ps generalizing qs args with
  | nil =>
    cases h
    exact Labelling.backsAll_nil
  | cons p ps ih =>
    match qs with
    | [] =>
      cases h
      exact Labelling.backsAll_nil
    | q :: qs =>
      obtain ⟨hq, hqs⟩ := List.forall_mem_cons.1 hqs
      have hrest {value : Quantity} (hvalue : L.Backs s.system value.unit)
          (h : (s.bindArguments f ps qs >>= fun rest => pure ((p.name, value) :: rest)) =
            .ok args) : L.BacksAll s.system (args.map (·.2)) := by
        obtain ⟨rest, hbound, h⟩ := Except.bind_eq_ok.1 h
        cases h
        exact Labelling.backsAll_cons hvalue (ih hqs hbound)
      rw [bindArguments] at h
      split at h
      · exact hrest hq h
      · obtain ⟨u, hu, h⟩ := Except.bind_eq_ok.1 h
        obtain ⟨value, hvalue, h⟩ := Except.bind_eq_ok.1 h
        have hu := L.parse hs.sound (Except.mapError_eq_ok.1 hu)
        exact hrest (Labelling.backs_of_convert hu (Except.mapError_eq_ok.1 hvalue)) h

end Session

/-! ## Scripts -/

theorem yields_look (hs : s.Backed L) (path : String) :
    Run.Yields L (fun _ => []) s (Run.look path) := by
  refine .still hs fun {a t} h => ?_
  rw [Run.outcome_look] at h
  split at h <;> cases h
  exact ⟨rfl, Labelling.backsAll_nil⟩

theorem yields_firstFile? (hs : s.Backed L) (paths : List String) :
    Run.Yields L (fun _ => []) s (firstFile? paths) := by
  induction paths generalizing s with
  | nil => exact .pure hs Labelling.backsAll_nil
  | cons path paths ih =>
    refine .bind (yields_look hs path) fun sighting t ht _ => ?_
    split
    · exact .pure ht.backed Labelling.backsAll_nil
    · exact ih ht.backed

theorem yields_findScript (hs : s.Backed L) (name : String) :
    Run.Yields L (fun _ => []) s (findScript name) :=
  .get_bind (yields_firstFile? hs _)

theorem yields_readLines (hs : s.Backed L) (path : String) :
    Action.Yields L (fun _ => []) s (readLines path) := by
  refine .bind (.lift (yields_look hs path)) fun sighting t ht _ => ?_
  split
  · exact .pure ht.backed Labelling.backsAll_nil
  · exact .throw ht.backed _

/-- From backed sessions, bodies lead to backed sessions and values. -/
def Runner.Backed (L : Labelling) (run : Runner) : Prop :=
  ∀ ⦃s : Session⦄ (ls : List String), s.Backed L → Action.Yields L Option.toList s (run ls)

theorem yields_runScript (hrun : run.Backed L) (hs : s.Backed L) (path : String) :
    Action.Yields L Option.toList s (runScript run path) :=
  .bind (yields_readLines hs path) fun ls _ ht _ => hrun ls ht.backed

/-! ## Calls -/

theorem yields_inFrame {α : Type} {values : α → List Quantity} {body : Action α}
    (hs : s.Backed L) (hargs : L.BacksAll s.system (args.map (·.2)))
    (hbody : (s.enter name parent args).Backed L →
      Action.Yields L values (s.enter name parent args) body) :
    Action.Yields L values s (inFrame name parent args body) := by
  rcases Nat.lt_or_ge s.depth s.options.maxCallDepth with hlt | hge
  · intro r t h
    rw [Run.outcome_action, outcome_inFrame body hlt] at h
    have henter : s.Leads L (s.enter name parent args) := hs.enter hargs
    rcases hout : body.outcome (s.enter name parent args) with e | ⟨r', u⟩
    · rw [hout] at h
      cases h
    · rw [hout] at h
      cases h
      obtain ⟨hu, hvalues⟩ := hbody henter.backed hout
      exact ⟨(henter.trans hu).trans (hu.backed.leave s.frame), hvalues⟩
  · refine .get_bind ?_
    simp only [hge, if_true]
    exact .throw hs _

/-- A call that returns nothing has a plain value. -/
theorem backsAll_getD {q? : Option Quantity} (h : L.BacksAll s.system q?.toList) :
    L.BacksAll s.system [q?.getD (.ofBool false)] := by
  cases q? with
  | none => exact Labelling.backsAll_singleton (L.plain _)
  | some q => exact h

theorem yields_callUser (hrun : run.Backed L) (hs : s.Backed L) (f : UserFunction) (scope : Nat)
    (hqs : L.BacksAll s.system qs) :
    Action.Yields L (fun q => [q]) s (callUser run f scope qs) := by
  unfold callUser
  split
  · exact .throw hs _
  · refine .get_bind (.except_bind hs fun bound hbound => ?_)
    have hargs := hs.backsAll_bindArguments hqs hbound
    refine .bind (yields_inFrame hs hargs fun hu => hrun _ hu) fun q? t ht hq => ?_
    exact .pure ht.backed (backsAll_getD hq)

theorem yields_call (hrun : run.Backed L) (hs : s.Backed L) (home : Home) (name : String)
    (hqs : L.BacksAll s.system qs) : Action.Yields L (fun q => [q]) s (call run home name qs) := by
  unfold call
  split
  · split
    · refine .except hs fun q hq => ?_
      have hbacks := Labelling.backs_of_stemsFrom hs.sound (Builtin.stemsFrom_call hq) hqs
      exact Labelling.backsAll_singleton hbacks
    · exact .throw hs _
  · refine .get_bind ?_
    split
    · exact yields_callUser hrun hs _ _ hqs
    · exact .throw hs _

theorem yields_callFile (hrun : run.Backed L) (hs : s.Backed L) (name : String) :
    Action.Yields L Option.toList s (callFile run name) := by
  refine .bind (.lift (yields_findScript hs _)) fun path? t ht _ => ?_
  split
  · exact .pure ht.backed Labelling.backsAll_nil
  · refine .bind (yields_readLines ht.backed _) fun ls u hu _ => ?_
    refine .bind (yields_inFrame hu.backed Labelling.backsAll_nil fun hv => hrun ls hv)
      fun q? v hv hq => ?_
    exact .pure hv.backed (backsAll_getD hq)

end QuantityCalc
