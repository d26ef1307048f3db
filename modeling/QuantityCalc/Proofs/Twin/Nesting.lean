import QuantityCalc.Proofs.Command.Scripts
import QuantityCalc.Proofs.Run.Reachable
import QuantityCalc.Proofs.Twin.Commands
import Mathlib.Data.List.Perm.Subperm

/-!
# How deep activations are nested

Calls are limited in their depth, and reading a script is not a call. So a script that reads itself
runs without end (`exhausted_of_rereading`). There is no other way to do so: `guarded` runs lines as
`activation` does, but it halts with an alarm where a script is read that is running already in the
same call. Unless the alarm is raised, at most `(limit - depth + 1) * (n + 1)` activations are
nested, where `n` is the number of scripts, and every line has an outcome (`ends_or_rereads`).
-/

namespace QuantityCalc

open Session

variable {scripts active : List (List String)} {alarm : Halt} {s s' t : Session}
  {limit depth budget budget' : Nat}

/-- Runs lines as `activation` does, and halts with an alarm if all scripts with these lines are
running already in the innermost call. Here `depth` is the depth of that call, and `active` are the
scripts that are running in it. -/
def guarded (scripts : List (List String)) (alarm : Halt) :
    (budget depth : Nat) → (active : List (List String)) → Runner
  | 0, _, _, _ => ExceptT.lift (throw .exhausted)
  | budget + 1, depth, active, ls => do
    let s ← get
    if depth < s.depth then Command.lines (guarded scripts alarm budget s.depth []) ls
    else if ls ∈ scripts ∧ scripts.count ls ≤ active.count ls then ExceptT.lift (throw alarm)
    else Command.lines (guarded scripts alarm budget depth (ls :: active)) ls

theorem conforms_guarded (budget depth : Nat) (active : List (List String)) :
    Runner.Conforms (fun _ => True) (guarded scripts alarm budget depth active)
      (guarded scripts alarm budget depth active) := by
  induction budget generalizing depth active with
  | zero =>
    intro s ls _
    exact ⟨rfl, fun h => by cases h⟩
  | succ budget ih =>
    intro s ls _
    refine .get_bind ?_
    split
    · exact Command.conforms_lines invariant_true (ih _ _) trivial ls
    · split
      · exact ⟨rfl, fun h => by cases h⟩
      · exact Command.conforms_lines invariant_true (ih _ _) trivial ls

theorem files_of_move (h : Move s t) : t.files = s.files := by
  cases h <;> rfl

/-- The accord of a guarded run within a call of some depth, and an unguarded one. -/
def Accord.guarded (scripts : List (List String)) (alarm : Halt) (limit depth : Nat) : Accord where
  holds s := s.files.Holds scripts ∧ s.options.maxCallDepth = limit ∧ depth ≤ s.depth ∧
    (depth < s.depth → s.depth ≤ limit)
  admits s ls := depth < s.depth ∨ ls ∈ scripts
  errors := True
  exact := True
  excused h := scripts ≠ [] ∧ h = alarm
  shared _ := False
  veil? := none
  invariant := by
    refine ⟨fun {s t} hs h => ?_, fun {s _ _ _} hs _ hlt => ?_, fun {s t _ _ _} hs he ht => ?_⟩
    · have he := evolves_of_move h
      rw [files_of_move h, he.options, he.depth]
      exact hs
    · obtain ⟨hfiles, hlimit, hle, -⟩ := hs
      exact ⟨hfiles, hlimit, Nat.le_succ_of_le hle, fun _ => hlimit ▸ hlt⟩
    · have heval := evaluates_of_call he
      rw [heval.options, heval.depth]
      exact ⟨ht.1, hs.2⟩
  unseen := by
    intro s path h hs hlook
    obtain ⟨found, hfound⟩ := hs.1.seen path
    rw [hlook] at hfound
    cases hfound
  script hs hlook htext := Or.inr (hs.1.script hlook htext)
  body hs _ := Or.inl (Nat.lt_succ_of_le hs.2.2.1)
  veiled _ _ hv := by cases hv

/-- The runs of the accord start and end in the same session. -/
theorem alike_guarded (h : Alike (.guarded scripts alarm limit depth) s s') : s' = s :=
  h.eq_of_strict rfl trivial trivial

/-- What follows within a call follows around it too. -/
theorem follows_of_call {α : Type} {inner : Nat} {m m' : Action α} (hlt : depth < inner)
    (hle : inner ≤ limit)
    (h : Action.Follows (.guarded scripts alarm limit inner) s s m m') :
    Action.Follows (.guarded scripts alarm limit depth) s s m m' := by
  refine .of_outcomes (fun hm hr => ?_) h.halt
  obtain ⟨t', hm', ht⟩ := h.ok hm hr
  obtain rfl := alike_guarded ht
  obtain ⟨hfiles, hlimit, hinner, hdepth⟩ := ht.holds
  refine ⟨t', hm', alike_self rfl ⟨hfiles, hlimit, ?_, fun _ => ?_⟩⟩
  · exact Nat.le_of_lt (Nat.lt_of_lt_of_le hlt hinner)
  · rcases Nat.eq_or_lt_of_le hinner with heq | hlt'
    · exact heq ▸ hle
    · exact hdepth hlt'

theorem measure_of_call {n running inner : Nat} (hlt : depth < inner) (hle : inner ≤ limit)
    (h : n - running + (limit - depth) * (n + 1) < budget + 1) :
    n + (limit - inner) * (n + 1) < budget := by
  have hmul : (limit - inner + 1) * (n + 1) ≤ (limit - depth) * (n + 1) :=
    Nat.mul_le_mul_right _ (by omega)
  rw [Nat.succ_mul] at hmul
  omega

/-- **A guarded run has the same outcome, unless the alarm is raised.** The measure of a runner is
the number of activations that it may still nest: the scripts that are not running yet, and for
each call below the limit its body and all scripts. -/
theorem follows_guarded (hle : budget ≤ budget')
    (hactive : ∀ ls, active.count ls ≤ scripts.count ls)
    (hbudget : scripts.length - active.length + (limit - depth) * (scripts.length + 1) < budget) :
    Runner.Follows (.guarded scripts alarm limit depth) (guarded scripts alarm budget depth active)
      (activation budget') := by
  induction budget generalizing budget' depth active with
  | zero => exact absurd hbudget (Nat.not_lt_zero _)
  | succ budget ih =>
    obtain ⟨larger, rfl⟩ : ∃ larger, budget' = larger + 1 := ⟨budget' - 1, by omega⟩
    have hle' : budget ≤ larger := Nat.le_of_succ_le_succ hle
    refine ⟨conforms_guarded _ _ _, fun {s s'} ls h hadmits => ?_⟩
    obtain rfl := alike_guarded h
    obtain ⟨hfiles, hlimit, hdepth, hlimit'⟩ := h.holds
    have hstep : Action.Follows (.guarded scripts alarm limit depth) s' s'
        (if depth < s'.depth then Command.lines (guarded scripts alarm budget s'.depth []) ls
          else if ls ∈ scripts ∧ scripts.count ls ≤ active.count ls then ExceptT.lift (throw alarm)
          else Command.lines (guarded scripts alarm budget depth (ls :: active)) ls)
        (Command.lines (activation larger) ls) := by
      split
      · -- the body of a call: in the call, no script is running yet
        rename_i hcall
        have hrun : Runner.Follows (.guarded scripts alarm limit s'.depth)
            (guarded scripts alarm budget s'.depth []) (activation larger) :=
          ih hle' (fun _ => Nat.zero_le _) (measure_of_call hcall (hlimit' hcall) hbudget)
        have hself : Alike (.guarded scripts alarm limit s'.depth) s' s' :=
          alike_self rfl ⟨hfiles, hlimit, Nat.le_refl _, fun hlt => absurd hlt (Nat.lt_irrefl _)⟩
        exact follows_of_call hcall (hlimit' hcall) (Command.follows_lines hrun hself ls)
      · rename_i hcall
        have hscript : ls ∈ scripts := hadmits.resolve_left hcall
        split
        · exact Or.inl ⟨List.ne_nil_of_mem hscript, rfl⟩
        · -- a script that is not running yet
          rename_i hfree
          have hlt : active.count ls < scripts.count ls :=
            Nat.lt_of_not_le fun hle => hfree ⟨hscript, hle⟩
          have hactive' (other : List String) :
              (ls :: active).count other ≤ scripts.count other := by
            rw [List.count_cons]
            split
            · rename_i heq
              obtain rfl : ls = other := by simpa using heq
              omega
            · exact hactive other
          have hlength : (ls :: active).length ≤ scripts.length :=
            (List.subperm_ext_iff.2 fun other _ => hactive' other).length_le
          rw [List.length_cons] at hlength
          refine Command.follows_lines (ih hle' hactive' ?_) h ls
          rw [List.length_cons]
          omega
    exact hstep

/-- **Every line has an outcome, unless a script is read that is running already.** At most
`(limit - depth + 1) * (n + 1)` activations are nested until then, where `n` is the number of
scripts. -/
theorem ends_or_rereads (hs : s.files.Holds scripts) (alarm : Halt) (l : String) :
    (scripts ≠ [] ∧
      (Command.line (guarded scripts alarm
        ((s.options.maxCallDepth - s.depth + 1) * (scripts.length + 1)) s.depth []) l).outcome s =
          .error alarm) ∨
    ∃ (r : Except Error Flow) (t : Session),
      ∀ budget ≥ (s.options.maxCallDepth - s.depth + 1) * (scripts.length + 1),
        (execute budget l).outcome s = .ok (r, t) := by
  let bound := (s.options.maxCallDepth - s.depth + 1) * (scripts.length + 1)
  let A := Accord.guarded scripts alarm s.options.maxCallDepth s.depth
  have hself : Alike A s s :=
    alike_self rfl ⟨hs, rfl, Nat.le_refl _, fun hlt => absurd hlt (Nat.lt_irrefl _)⟩
  have hfollows {budget : Nat} (hbudget : bound ≤ budget) :
      Action.Follows A s s (Command.line (guarded scripts alarm bound s.depth []) l)
        (execute budget l) := by
    refine Command.follows_line (follows_guarded hbudget (fun _ => Nat.zero_le _) ?_) hself l
    simp only [bound, Nat.succ_mul, List.length_nil]
    omega
  rcases hout : (Command.line (guarded scripts alarm bound s.depth []) l).outcome s with e | ⟨r, t⟩
  · rcases (hfollows (Nat.le_refl bound)).halt hout with ⟨hscripts, rfl⟩ | ⟨hshared, -⟩
    · exact Or.inl ⟨hscripts, rfl⟩
    · exact absurd hshared id
  · refine Or.inr ⟨r, t, fun budget hbudget => ?_⟩
    obtain ⟨t', hout', ht⟩ := (hfollows hbudget).ok hout (Or.inl trivial)
    exact alike_guarded ht ▸ hout'

/-- Without scripts, every line has an outcome. -/
theorem ends_or_rereads_sample :
    (start {} (FileTree.ofList []).files).files.Holds [] ∧
      ∃ (r : Except Error Flow) (t : Session), ∀ budget ≥ 33,
        (execute budget "f()").outcome (start {} (FileTree.ofList []).files) = .ok (r, t) := by
  have hholds : (start {} (FileTree.ofList []).files).files.Holds [] :=
    (FileTree.ofList []).holds_scripts
  refine ⟨hholds, ?_⟩
  rcases ends_or_rereads hholds (.unseen "") "f()" with ⟨hne, -⟩ | hends
  · exact absurd rfl hne
  · exact hends

/-- **A script that reads itself runs without end.** -/
theorem exhausted_of_rereading :
    Reachable [] (Command.beside "Read again") ∧ ∀ budget,
      (execute budget "Read again").outcome (Command.beside "Read again") = .error .exhausted := by
  refine ⟨.start _ _, fun budget => ?_⟩
  have hlines : (Text.lines "Read again".toList).map String.ofList = ["Read again"] := by decide
  induction budget with
  | zero =>
    rw [execute, Command.outcome_read_beside, hlines]
    rfl
  | succ budget ih =>
    rw [execute, Command.outcome_read_beside, hlines, activation, Command.lines,
      Action.outcome_bind, Action.outcome_lift, Run.outcome_action]
    rw [execute] at ih
    rw [ih]

end QuantityCalc
