import QuantityCalc.Proofs.Twin.Options

/-!
# The precision shows in nothing but text

Quantities are rounded when they are written, and only then. Two sessions that differ in their
precision alone answer every command line alike, whatever calls and scripts it runs: with the same
flow, the same value or the same error, and with as many lines written. Behind it they differ again
in their precision and in the text of these lines alone (`answers_rounds`). The accord of such runs
is `Accord.rounding`: errors are errors on both sides, and nothing is excused.
-/

namespace QuantityCalc

open Session

/-- The accord of runs that may write other texts, but as many. It is that of wider options, but
errors are errors on both sides, and nothing is excused. -/
def Accord.rounding : Accord :=
  { Accord.widening with errors := True, exact := False, excused := fun _ => False }

namespace Session

variable {s s' t : Session} {budget : Nat}

/-- Sessions that differ in nothing but their precision and the text of the lines written. -/
def Rounds (s s' : Session) : Prop :=
  ∃ precision? output, output.size = s.output.size ∧
    s' = { s with options := { s.options with precision? := precision? }, output := output }

/-- Runs command lines one after the other, also after an error. Tells how each of them ends, and
how many lines have been written by then. -/
def answers (budget : Nat) (s : Session) :
    List String → Except Halt (List (Except Error Flow × Nat) × Session)
  | [] => .ok ([], s)
  | l :: ls => do
    let (r, t) ← (execute budget l).outcome s
    let (rs, u) ← answers budget t ls
    return ((r, t.output.size) :: rs, u)

/-- The accord leaves open the precision and the text, and nothing else. -/
theorem alike_rounding_iff : Alike .rounding s s' ↔ s.Rounds s' := by
  constructor
  · intro h
    refine ⟨s'.options.precision?, s'.output, h.lines, ?_⟩
    rw [← h.options.eq_of_errors trivial]
    exact h.eq_of_no_veil rfl
  · rintro ⟨precision?, output, hsize, rfl⟩
    refine ⟨⟨rfl, rfl, rfl, rfl, rfl, ?_, rfl, fun _ => rfl, nofun, hsize, False.elim⟩, trivial, ?_⟩
    · exact ⟨rfl, rfl, id, Nat.le_refl _, Nat.le_refl _, fun _ => ⟨rfl, rfl, rfl⟩, False.elim⟩
    · rintro p - ⟨v, hv, -⟩
      cases hv

/-- A command line ends alike with another precision. -/
theorem execute_rounds (budget : Nat) (l : String) (h : s.Rounds s') :
    Agree (fun x x' => x'.1 = x.1 ∧ x.2.Rounds x'.2) ((execute budget l).outcome s)
      ((execute budget l).outcome s') := by
  have hrun : Runner.Follows .rounding (activation budget) (activation budget) :=
    follows_activation (Nat.le_refl _) (Or.inr ⟨trivial, rfl⟩)
  have hfollows := Command.follows_line hrun (alike_rounding_iff.2 h) l
  rw [execute]
  cases hout : (Command.line (activation budget) l).outcome s with
  | ok x =>
    obtain ⟨t', hout', ht⟩ := hfollows.ok hout (Or.inl trivial)
    rw [hout']
    exact .ok ⟨rfl, alike_rounding_iff.1 ht⟩
  | error e =>
    obtain hexcused | ⟨-, hout'⟩ := hfollows.halt hout
    · exact hexcused.elim
    · rw [hout']
      exact .error e

/-- **The precision shows in nothing but text.** Sessions that differ in their precision alone, and
in the text written before, answer command lines alike, with as many lines written, and they differ
alike at the end. The output accepts every line, whatever its text is. -/
theorem answers_rounds (budget : Nat) (ls : List String) (h : s.Rounds s') :
    Agree (fun x x' => x'.1 = x.1 ∧ x.2.Rounds x'.2) (answers budget s ls)
      (answers budget s' ls) := by
  induction ls generalizing s s' with
  | nil => exact .ok ⟨rfl, h⟩
  | cons l ls ih =>
    refine (execute_rounds budget l h).bind fun {x x'} _ hx => ?_
    obtain ⟨r, t⟩ := x
    obtain ⟨r', t'⟩ := x'
    obtain ⟨rfl, ht⟩ := hx
    have hlines : t'.output.size = t.output.size := (alike_rounding_iff.2 ht).lines
    refine (ih ht).bind fun {y y'} _ hy => ?_
    obtain ⟨rs, u⟩ := y
    obtain ⟨rs', u'⟩ := y'
    obtain ⟨rfl, hu⟩ := hy
    refine .ok ⟨?_, hu⟩
    rw [hlines]

/-- A third is stored as it is, whether it is written with all of its digits or with two. -/
theorem answers_rounds_sample :
    ∃ s s' : Session, s.Rounds s' ∧
      Agree (fun x x' => x'.1 = x.1 ∧ x.2.Rounds x'.2) (answers 1 s ["x = 1/3", "x"])
        (answers 1 s' ["x = 1/3", "x"]) ∧
      (answers 1 s ["x = 1/3", "x"]).toOption.map (·.2.output) = some #["0.3333333333333333"] ∧
      (answers 1 s' ["x = 1/3", "x"]).toOption.map (·.2.output) = some #["0.33"] := by
  have hrounds : (start {} .unknown).Rounds (start { precision? := some 2 } .unknown) :=
    ⟨some 2, #[], rfl, rfl⟩
  exact ⟨_, _, hrounds, answers_rounds 1 _ hrounds, by decide +kernel, by decide +kernel⟩

end Session

end QuantityCalc
