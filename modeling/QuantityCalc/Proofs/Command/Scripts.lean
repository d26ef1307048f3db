import QuantityCalc.Command.Basic
import QuantityCalc.Proofs.Run.Outcome
import Mathlib.Data.List.TakeWhile

/-!
# Scripts

The scripts of a directory are the lines of its files that can be read (`FileTree.scripts`), and no
other lines are read from it (`FileTree.holds_scripts`). A line that reads a script runs its lines
in the current scope, and it returns what they return (`Command.outcome_read`).
-/

namespace QuantityCalc

open Session

/-! ## The scripts of a directory -/

/-- The answers for all paths are known, and the files that can be read hold some scripts. -/
structure Files.Holds (files : Files) (scripts : List (List String)) : Prop where
  seen : ∀ path, ∃ found, files.look path = .ok found
  script : ∀ {path text : String} {found : Sighting}, files.look path = .ok found →
    found.text = .ok text → (Text.lines text.toList).map String.ofList ∈ scripts

namespace FileTree

variable {tree : FileTree} {text : String}

/-- The lines of the files in a directory that can be read. -/
def scripts (t : FileTree) : List (List String) :=
  t.entries.filterMap fun (_, found) =>
    found.text.toOption.map fun text => (Text.lines text.toList).map String.ofList

theorem mem_scripts_of_entry {place : List String} (h : (tree.entry place).text = .ok text) :
    (Text.lines text.toList).map String.ofList ∈ tree.scripts := by
  unfold entry at h
  split at h
  · rename_i found hfind
    refine List.mem_filterMap.2 ⟨_, List.mem_of_find?_eq_some hfind, ?_⟩
    simp only [h, Except.toOption, Option.map_some]
  · split at h <;> cases h

theorem mem_scripts_of_follow {segments place : List String}
    (h : (tree.follow place segments).text = .ok text) :
    (Text.lines text.toList).map String.ofList ∈ tree.scripts := by
  induction segments generalizing place with
  | nil => exact mem_scripts_of_entry h
  | cons segment segments ih =>
    unfold follow at h
    split at h
    · cases h
    · cases h
    · cases h
    · split at h
      · exact ih h
      · split at h
        · exact ih h
        · split at h
          · cases h
          · exact ih h

/-- **What is read from a directory is one of its scripts.** -/
theorem holds_scripts (tree : FileTree) : tree.files.Holds tree.scripts := by
  refine ⟨fun path => ⟨tree.sighting path, rfl⟩, fun {path text found} hlook htext => ?_⟩
  have hsighting : tree.sighting path = found := Except.ok.inj hlook
  subst hsighting
  unfold sighting at htext
  split at htext
  · cases htext
  · exact mem_scripts_of_follow htext

end FileTree

/-! ## Reading a script -/

namespace Command

variable {s : Session} {run : Runner} {name text : String}

theorem outcome_findScript (h : s.files.look name = .ok (.file text)) :
    (findScript name).outcome s = .ok (some name, s) := by
  have hcandidates : s.candidates name = name :: (s.candidates name).tail := by
    simp [candidates, Path.join]
  have hlook : (Run.look name).outcome s = .ok (.file text, s) := by
    rw [Run.outcome_look, h]
  simp only [findScript, Run.outcome_bind, Run.outcome_get]
  rw [hcandidates, firstFile?, Run.outcome_bind, hlook]
  rfl

theorem outcome_readLines (h : s.files.look name = .ok (.file text)) :
    (readLines name).outcome s =
      .ok (.ok ((Text.lines text.toList).map String.ofList), s) := by
  simp only [readLines, Action.outcome_bind, Action.outcome_liftM, Run.outcome_look, h]
  rfl

/-- How a line ends that runs a script. -/
def flowOf : Option Quantity → Flow
  | some value => .returned value
  | none => .proceed

/-- **A line that reads a script runs its lines**, and it returns what they return. -/
theorem outcome_read {l : String} {args : Text} (hdeclaring : s.isDeclaring = false)
    (hover : isOver (Text.trimStart l.toList) = false)
    (hscan : Keyword.scan? (Text.trimStart l.toList) = some (.read, args))
    (hargs : ';' ∉ args) (hname : String.ofList (Text.trim args) = name) (hempty : name ≠ "")
    (hlook : s.files.look name = .ok (.file text)) :
    (line run l).outcome s =
      match (run ((Text.lines text.toList).map String.ofList)).outcome s with
      | .ok (.ok value?, t) => .ok (.ok (flowOf value?), t)
      | .ok (.error e, t) => .ok (.error e, t)
      | .error h => .error h := by
  have hkept : args.takeWhile (· ≠ ';') = args :=
    List.takeWhile_eq_self_iff.2 fun c hc => decide_eq_true fun heq => hargs (heq ▸ hc)
  have hrest : args.dropWhile (· ≠ ';') = [] :=
    List.dropWhile_eq_nil_iff.2 fun c hc => decide_eq_true fun heq => hargs (heq ▸ hc)
  have hone : (one run l.toList).outcome s =
      match (run ((Text.lines text.toList).map String.ofList)).outcome s with
      | .ok (.ok value?, t) => .ok (.ok (.done (flowOf value?) []), t)
      | .ok (.error e, t) => .ok (.error e, t)
      | .error h => .error h := by
    have hnonempty : name.isEmpty = false := by simpa using hempty
    simp only [one, Action.outcome_bind, Action.outcome_get, hdeclaring, Bool.false_eq_true,
      if_false, hover, hscan, Command.run, hkept, hrest, hname, hnonempty, Action.outcome_liftM,
      outcome_findScript hlook, runScript, outcome_readLines hlook]
    rcases (run ((Text.lines text.toList).map String.ofList)).outcome s with h | ⟨e | value?, t⟩
    · rfl
    · rfl
    · cases value? <;> rfl
  rw [line, lineFrom, Action.outcome_bind, hone]
  rcases (run ((Text.lines text.toList).map String.ofList)).outcome s with h | ⟨e | value?, t⟩
  · rfl
  · rfl
  · cases value? <;> rfl

/-- A new session in a directory with one script. -/
def beside (text : String) : Session := start {} (FileTree.ofList [("again", .file text)]).files

theorem outcome_read_beside (text : String) :
    (line run "Read again").outcome (beside text) =
      match (run ((Text.lines text.toList).map String.ofList)).outcome (beside text) with
      | .ok (.ok value?, t) => .ok (.ok (flowOf value?), t)
      | .ok (.error e, t) => .ok (.error e, t)
      | .error h => .error h := by
  have hscan : Keyword.scan? (Text.trimStart "Read again".toList) =
      some (.read, " again".toList) := by decide
  have hname : String.ofList (Text.trim " again".toList) = "again" := by decide
  exact outcome_read rfl (by decide) hscan (by decide) hname (by decide) rfl

end Command

end QuantityCalc
