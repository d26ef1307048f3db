import QuantityCalc.Proofs.Command.Scripts
import QuantityCalc.Proofs.Twin.Commands

/-!
# Wider options and larger budgets

Lenient conversion and larger limits admit more, and they change nothing of what was admitted
before: command lines that succeed one after the other do so with wider options too, with the same
flows and the same sessions in between, apart from the options (`succeeds_widen`). The accord of
such runs is `Accord.widening`: it says nothing of the second run where the first one fails.

A line that has an outcome with a budget of nested activations has the same one with every larger
budget (`outcome_of_le`). The accord of two such runs is `Accord.spending`: only the first of them
may halt because its budget is spent.
-/

namespace QuantityCalc

open Session

/-- Options with lenient conversion, if it is asked for, and with larger limits. -/
def Options.widen (o : Options) (lenient : Bool) (calls nesting : Nat) : Options :=
  { o with
    lenientConversion := o.lenientConversion || lenient
    maxCallDepth := o.maxCallDepth + calls
    maxNesting := o.maxNesting + nesting }

/-- The accord of runs of which the second one has wider options, and may have a larger budget. -/
def Accord.widening : Accord where
  holds _ := True
  admits _ _ := True
  errors := False
  exact := True
  excused h := h = .exhausted
  shared _ := True
  veil? := none
  invariant := invariant_true
  unseen _ _ := trivial
  script _ _ _ := trivial
  body _ _ := trivial
  veiled _ _ hv := by cases hv

namespace Session

variable {s t : Session}

/-- The session with wider options. -/
def widen (s : Session) (lenient : Bool) (calls nesting : Nat) : Session :=
  { s with options := s.options.widen lenient calls nesting }

/-- Command lines succeed one after the other, each with the flow given for it. -/
inductive Succeeds (budget : Nat) : Session → List String → List Flow → Session → Prop where
  | nil (s : Session) : Succeeds budget s [] [] s
  | cons {s t u : Session} {l : String} {ls : List String} {flow : Flow} {flows : List Flow}
      (h : (execute budget l).outcome s = .ok (.ok flow, t))
      (hrest : Succeeds budget t ls flows u) :
      Succeeds budget s (l :: ls) (flow :: flows) u

theorem alike_widen (s : Session) (lenient : Bool) (calls nesting : Nat) :
    Alike .widening s (s.widen lenient calls nesting) := by
  refine alike_options rfl trivial ⟨rfl, rfl, fun hlenient => ?_, Nat.le_add_right _ _,
    Nat.le_add_right _ _, False.elim, fun _ => rfl⟩
  simp only [Options.widen, hlenient, Bool.true_or]

/-- A line that succeeds does so with wider options. -/
theorem outcome_widen {budget budget' : Nat} (hle : budget ≤ budget') (lenient : Bool)
    (calls nesting : Nat) {l : String} {flow : Flow}
    (h : (execute budget l).outcome s = .ok (.ok flow, t)) :
    (execute budget' l).outcome (s.widen lenient calls nesting) =
      .ok (.ok flow, t.widen lenient calls nesting) := by
  have hrun : Runner.Follows .widening (activation budget) (activation budget') :=
    follows_activation hle (Or.inl rfl)
  have hfollows := Command.follows_line hrun (alike_widen s lenient calls nesting) l
  obtain ⟨t', hout, ht⟩ := hfollows.ok h (Accord.accepts_ok flow)
  -- a line changes no options, so the second session keeps the wider ones
  have hkeeps {budget : Nat} {u v : Session} {r : Except Error Flow}
      (hout : (Command.line (activation budget) l).outcome u = .ok (r, v)) :
      v.options = u.options :=
    ((Command.conforms_line invariant_true (conforms_activation invariant_true budget) trivial
      l).2 hout).1.options
  rw [execute, hout, ht.eq_of_unveiled rfl trivial, hkeeps hout]
  simp only [widen, hkeeps h]

/-- **Widening the options is conservative.** Command lines that succeed do so with lenient
conversion and larger limits, with the same flows, and they lead to the same session apart from
these options. -/
theorem succeeds_widen {budget budget' : Nat} {ls : List String} {flows : List Flow}
    (hle : budget ≤ budget') (lenient : Bool) (calls nesting : Nat)
    (h : Succeeds budget s ls flows t) :
    Succeeds budget' (s.widen lenient calls nesting) ls flows (t.widen lenient calls nesting) := by
  induction h with
  | nil s => exact .nil _
  | cons h _ ih => exact .cons (outcome_widen hle lenient calls nesting h) ih

theorem succeeds_widen_sample :
    ∃ t, 1 ≤ 2 ∧ Succeeds 1 (Command.beside "") ["Read again"] [.proceed] t ∧
      Succeeds 2 ((Command.beside "").widen true 8 8) ["Read again"] [.proceed]
        (t.widen true 8 8) := by
  have hline : ∃ t, (execute 1 "Read again").outcome (Command.beside "") =
      .ok (.ok .proceed, t) := ⟨_, Command.outcome_read_beside ""⟩
  obtain ⟨t, ht⟩ := hline
  have hsucceeds := Succeeds.cons ht (.nil t)
  exact ⟨t, Nat.le_succ 1, hsucceeds, succeeds_widen (Nat.le_succ 1) true 8 8 hsucceeds⟩

end Session

/-! ## Larger budgets -/

/-- The accord of runs in equal sessions, of which the second one has a larger budget. -/
def Accord.spending : Accord := { Accord.widening with errors := True }

/-- **A run that does not spend its budget** has the same outcome with every larger one. -/
theorem Session.outcome_of_le {budget budget' : Nat} {l : String} {r : Except Error Flow}
    {s t : Session} (hle : budget ≤ budget') (h : (execute budget l).outcome s = .ok (r, t)) :
    (execute budget' l).outcome s = .ok (r, t) := by
  have hrun : Runner.Follows .spending (activation budget) (activation budget') :=
    follows_activation hle (Or.inl rfl)
  have hself : Alike .spending s s := alike_self rfl trivial
  obtain ⟨t', hout, ht⟩ := (Command.follows_line hrun hself l).ok h (Or.inl trivial)
  rw [execute, hout, ht.eq_of_strict rfl trivial trivial]

end QuantityCalc
