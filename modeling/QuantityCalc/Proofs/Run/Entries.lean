import QuantityCalc.Proofs.Run.Commands

/-!
# Runs from the outside

An `Entry` is what can be asked of a session from the outside: running a line, lines or a script,
reading an expression, a list or a stream of tokens, and calling a function or a script. Whatever it
leads to, the session keeps its frame (`Entry.keeps_of_run`).

What happens during a run is seen by a watch. `watched fine alarm` runs bodies as `activation` does,
but it halts with an alarm whenever a body starts or ends in a session that is not `fine`. If an
invariant implies `fine`, no run from within the invariant can be told from a watched one
(`Entry.conforms_watched`).
-/

namespace QuantityCalc

open Session

variable {I fine : Session → Prop} {s t : Session}

/-- Halts with an alarm unless the session is fine. -/
def Run.watch (fine : Session → Prop) [DecidablePred fine] (alarm : Halt) : Run Unit := do
  if fine (← get) then return () else throw alarm

/-- Runs lines as `activation` does, and halts with an alarm if a body starts or ends in a session
that is not fine. -/
def watched (fine : Session → Prop) [DecidablePred fine] (alarm : Halt) : (budget : Nat) → Runner
  | 0, _ => ExceptT.lift (throw .exhausted)
  | budget + 1, ls => do
    ExceptT.lift (Run.watch fine alarm)
    let r ← ExceptT.lift (Command.lines (watched fine alarm budget) ls).run
    ExceptT.lift (Run.watch fine alarm)
    liftExcept r

theorem outcome_watch [DecidablePred fine] (hs : fine s) (alarm : Halt) :
    (Run.watch fine alarm).outcome s = .ok ((), s) := by
  simp [Run.watch, hs]

/-- **No alarm is raised** in sessions of an invariant that implies that they are fine. -/
theorem conforms_watched [DecidablePred fine] (hI : Invariant I)
    (hfine : ∀ {s : Session}, I s → fine s) (alarm : Halt) (budget : Nat) :
    Runner.Conforms I (activation budget) (watched fine alarm budget) := by
  induction budget with
  | zero =>
    intro s ls _
    exact ⟨rfl, fun h => by cases h⟩
  | succ budget ih =>
    intro s ls hs
    obtain ⟨heq, hlines⟩ := Command.conforms_lines hI ih hs ls
    refine ⟨?_, hlines⟩
    rw [Run.outcome_action, Run.outcome_action] at heq ⊢
    simp only [watched, activation, Action.outcome_bind, Action.outcome_lift,
      outcome_watch (hfine hs), Run.outcome_action, heq]
    match hout : (Command.lines (activation budget) ls).outcome s with
    | .error h => rfl
    | .ok (r, t) => simp [outcome_watch (hfine (hlines hout).2)]

theorem conforms_activation (hI : Invariant I) (budget : Nat) :
    Runner.Conforms I (activation budget) (activation budget) := by
  intro s ls hs
  have h : Runner.Conforms I (activation budget) (watched (fun _ => True) .exhausted budget) :=
    conforms_watched hI (fun _ => trivial) .exhausted budget
  exact ⟨rfl, (h ls hs).2⟩

/-! ## Entries -/

/-- What can be asked of a session from the outside. -/
inductive Entry where
  | line (l : String)
  | lines (ls : List String)
  | script (path : String)
  | expression (t : Text)
  | converted (t : Text)
  | list (t : Text)
  | tokens (t : Text)
  | function (home : Home) (name : String) (args : List Quantity)
  | file (name : String)

namespace Entry

/-- What an entry leads to. -/
abbrev Result : Entry → Type
  | line _ => Except Error Flow
  | lines _ | script _ => Except Error (Option Quantity)
  | expression _ | converted _ => Parsed Quantity
  | list _ => Parsed (List Quantity)
  | tokens _ => List Postfix.Item × Cursor
  | function .. => Except Error Quantity
  | file _ => Except Error (Option Quantity)

/-- Whether an entry only reads expressions or calls. -/
def evaluates : Entry → Bool
  | line _ | lines _ | script _ => false
  | _ => true

/-- Runs an entry with a budget of nested activations. -/
def run (budget : Nat) : (e : Entry) → Run e.Result
  | line l => (execute budget l).run
  | lines ls => (executeLines budget ls).run
  | script path => (executeScript budget path).run
  | expression t => readExpression budget t
  | converted t => readConverted budget t
  | list t => readList budget t
  | tokens t => readTokens budget t
  | function home name args => (callFunction budget home name args).run
  | file name => (callScript budget name).run

/-- Runs an entry with a runner for the bodies. -/
def runWith (run : Runner) : (e : Entry) → Run e.Result
  | line l => (Command.line run l).run
  | lines ls => (Command.lines run ls).run
  | script path => (runScript run path).run
  | expression t => do Expression.value (← Expression.topLevel run) t
  | converted t => do Expression.converted (← Expression.topLevel run) t
  | list t => do Expression.list (← Expression.topLevel run) t
  | tokens t => do
    let context ← Expression.topLevel run
    let fed ← Expression.feed context (fun items before => .ok (before ++ items)) [] {} (.start t)
    return (fed.state.toOption.getD [], fed.place)
  | function home name args => (call run home name args).run
  | file name => (callFile run name).run

theorem run_eq_runWith (e : Entry) (budget : Nat) :
    e.run budget = e.runWith (activation budget) := by
  cases e <;> rfl

variable {runner runner' : Runner}

theorem conforms_of_evaluates (hI : Invariant I) (hrun : Runner.Conforms I runner runner')
    {e : Entry} (he : e.evaluates = true) (hs : I s) :
    Run.Conforms I Evaluates s (e.runWith runner) (e.runWith runner') := by
  cases e with
  | line l => cases he
  | lines ls => cases he
  | script path => cases he
  | expression t =>
    exact Expression.conforms_topLevel (hrun.serves hI)
      (fun hcontext hu => Expression.conforms_value hcontext hu t) hs
  | converted t =>
    exact Expression.conforms_topLevel (hrun.serves hI)
      (fun hcontext hu => Expression.conforms_converted hcontext hu t) hs
  | list t =>
    exact Expression.conforms_topLevel (hrun.serves hI)
      (fun hcontext hu => Expression.conforms_list hcontext hu t) hs
  | tokens t =>
    refine Expression.conforms_topLevel (hrun.serves hI) (fun hcontext hu => ?_) hs
    exact .bind (Expression.conforms_feed hcontext _ hu _ _ _) fun _ _ hv => .pure hv _
  | function home name args => exact conforms_call hI hrun hs home name args
  | file name => exact conforms_callFile hI hrun hs name

theorem conforms (hI : Invariant I) (hrun : Runner.Conforms I runner runner') (e : Entry)
    (hs : I s) : Run.Conforms I Evolves s (e.runWith runner) (e.runWith runner') := by
  cases e with
  | line l => exact Command.conforms_line hI hrun hs l
  | lines ls => exact Command.conforms_lines hI hrun hs ls
  | script path => exact conforms_runScript hrun hs path
  | _ => exact .mono (·.toEvolves) (conforms_of_evaluates hI hrun rfl hs)

theorem conforms_watched [DecidablePred fine] (hI : Invariant I)
    (hfine : ∀ {s : Session}, I s → fine s) (alarm : Halt) (budget : Nat) (e : Entry) (hs : I s) :
    (e.runWith (watched fine alarm budget)).outcome s = (e.run budget).outcome s := by
  have hrun : Runner.Conforms I (activation budget) (watched fine alarm budget) :=
    QuantityCalc.conforms_watched hI hfine alarm budget
  rw [run_eq_runWith]
  exact (e.conforms hI hrun hs).1

/-! ## What an entry keeps -/

/-- What an entry that starts in one session and ends in another keeps. -/
structure Keeps (e : Entry) (s t : Session) : Prop where
  current : t.current = s.current
  depth : t.depth = s.depth
  floor : t.floor = s.floor
  scope : ∀ {p : Nat} {found : Scope}, s.scopes[p]? = some found → ∃ found',
    t.scopes[p]? = some found' ∧ found'.name = found.name ∧ found'.parent? = found.parent?
  size : e.evaluates = true → t.scopes.size = s.scopes.size
  draft : e.evaluates = true → ∀ {p : Nat} {found found' : Scope}, s.scopes[p]? = some found →
    t.scopes[p]? = some found' → found'.draft? = found.draft?
  lines : ∀ {ls : List String}, e = .lines ls → t.isDeclaring = false

/-- **A run keeps the frame of the session**, in whatever way it ends, and at no time are there more
calls than the limit admits. -/
theorem keeps_of_run (s : Session) (e : Entry) (budget : Nat) :
    (∀ {r : e.Result} {t : Session}, (e.run budget).outcome s = .ok (r, t) → e.Keeps s t) ∧
    (s.depth ≤ s.options.maxCallDepth → ∀ alarm : Halt,
      (e.runWith (watched (fun u => u.depth ≤ s.options.maxCallDepth) alarm budget)).outcome s =
        (e.run budget).outcome s) := by
  refine ⟨fun {r t} h => ?_, fun hdepth alarm => ?_⟩
  · have hrun : Runner.Conforms (fun _ => True) (activation budget) (activation budget) :=
      conforms_activation invariant_true budget
    rw [run_eq_runWith] at h
    have he : Evolves s t := ((e.conforms invariant_true hrun trivial).2 h).1
    have hevaluates (hev : e.evaluates = true) : Evaluates s t :=
      ((conforms_of_evaluates invariant_true hrun hev trivial).2 h).1
    refine ⟨he.current, he.depth, he.floor, fun hp => ?_, fun hev => (hevaluates hev).size_eq,
      fun hev => (hevaluates hev).draft, fun {ls} heq => ?_⟩
    · obtain ⟨found', hp', hname, hparent, -⟩ := he.scope hp
      exact ⟨found', hp', hname, hparent⟩
    · subst heq
      exact Command.isDeclaring_lines h
  · exact conforms_watched (invariant_depth s.options.maxCallDepth) (fun h => h.2) alarm budget e
      ⟨rfl, hdepth⟩

/-- A session that admits one call at a time and knows a function without parameters. -/
def sample : Session :=
  (start { maxCallDepth := 1 } .unknown).insert global "f" (.function ⟨"f", [], []⟩ global)

theorem function?_sample : sample.function? (.scope global) "f" = some (⟨"f", [], []⟩, global) := by
  have hitem : sample.item? global "f" = some (.function ⟨"f", [], []⟩ global) :=
    item?_insert_self Nat.one_pos
  simp only [function?, itemAt?, hitem]

theorem keeps_of_run_sample :
    ∃ t, ((function (.scope global) "f" []).run 1).outcome sample = .ok (.ok (.ofBool false), t) ∧
      (function (.scope global) "f" []).Keeps sample t ∧ sample.depth ≤ 1 ∧
      ((function (.scope global) "f" []).runWith
        (watched (fun u => u.depth ≤ 1) (.unseen "") 1)).outcome sample =
          .ok (.ok (.ofBool false), t) := by
  obtain ⟨hkeeps, hwatched⟩ := keeps_of_run sample (function (.scope global) "f" []) 1
  have hdepth : sample.depth < sample.options.maxCallDepth := Nat.one_pos
  have hrun : ∃ t, ((function (.scope global) "f" []).run 1).outcome sample =
      .ok (.ok (.ofBool false), t) := by
    have hbody : ∃ t, (activation 1 []).outcome (sample.enter "f" global []) = .ok (.ok none, t) :=
      ⟨_, rfl⟩
    obtain ⟨t, ht⟩ := hbody
    refine ⟨t.leave sample.frame, ?_⟩
    have hbind : sample.bindArguments ⟨"f", [], []⟩ [] [] = .ok [] := rfl
    simp only [run, callFunction, call, callUser, Run.outcome_action, Action.outcome_bind,
      Action.outcome_get, function?_sample, List.length_nil, ne_eq, not_true_eq_false, if_false,
      hbind, Action.outcome_except, outcome_inFrame _ hdepth, ht, Action.outcome_pure,
      Option.getD_none]
  obtain ⟨t, ht⟩ := hrun
  exact ⟨t, ht, hkeeps ht, Nat.zero_le 1, (hwatched (Nat.le_of_lt hdepth) _).trans ht⟩

end Entry

end QuantityCalc
