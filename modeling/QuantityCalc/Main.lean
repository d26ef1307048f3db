import QuantityCalc.Program.Basic
import Std.Time.DateTime

/-!
# The program at work

The outermost layer: it looks at files, opens the file of the log, reads the input line by line, and
writes. A step of the program that asks about a path at which nobody has looked is run again with
the answer.
-/

namespace QuantityCalc.Main

/-- Whether a directory stands at a path. -/
def isDirectory (path : String) : IO Bool := do
  try (← IO.FS.realPath path).isDir catch _ => return false

/-- What the operating system reports. -/
def fault : IO.Error → FileFault
  | .noFileOrDirectory .. => .noEntry
  | .inappropriateType .. => .notDirectory
  | .alreadyExists .. => .occupied
  | .permissionDenied .. => .other "Permission denied (os error 13)"
  | e => .other (toString e)

/-- Looks at a path. -/
def look (path : String) : IO Sighting := do
  if path.contains '\x00' then return .absent .nullInPath
  try
    return .ofBytes (← IO.FS.readBinFile path)
  catch e => return if ← isDirectory path then .directory else .absent (fault e)

/-- Why an action at a path fails, if it does. -/
def attempt (path : String) (action : IO Unit) : IO (Option FileFault) := do
  if path.contains '\x00' then return some .nullInPath
  try
    action
    return none
  catch e => return some (if ← isDirectory path then .isDirectory else fault e)

/-- Changes in the file system. -/
def disk : Disk IO where
  makeDirectory path := attempt path do
    unless path.isEmpty do IO.FS.createDirAll path
  append path := attempt path do
    let _ ← IO.FS.Handle.mk path .append

/-- The current minute. -/
def now : IO Moment := do
  let t := Std.Time.WallTime.ofTimestamp (← Std.Time.Timestamp.now) .zero
  let d := Std.Time.PlainDateTime.ofWallTime t
  return ⟨d.year.toInt.toNat, d.month.toNat, d.day.toNat, d.hour.toNat, d.minute.toNat⟩

/-- The outcome of a step, none if scripts read one another without end. -/
partial def answered {α : Type} (step : Files → Except Halt α) (f : Files) : IO (Option α) := do
  match step f with
  | .ok a => return some a
  | .error .exhausted => return none
  | .error (.unseen path) => answered step (f.insert path (← look path))

/-- The variables of the environment. -/
def environment : IO Settings.Variables := do
  let bytes ← try IO.FS.readBinFile "/proc/self/environ" catch _ => return []
  let entries := ((String.fromUTF8? bytes).getD "").toList.splitOn '\x00'
  return entries.filterMap fun entry =>
    (Text.cut? '=' entry).map fun (name, value) => (String.ofList name, String.ofList value)

/-- Writes what a session has written, and forgets it. -/
def flush (s : Session) : IO Session := do
  let out ← IO.getStdout
  s.output.forM out.putStrLn
  out.flush
  return { s with output := #[] }

/-- Runs a step of a session and writes what comes of it. -/
def perform (s : Session) (step : Run (Option String)) : IO Session := do
  match ← answered (fun f => step.run { s with files := f }) Files.unknown with
  | some (report?, s) =>
    let s ← flush s
    report?.forM IO.eprintln
    return s
  | none =>
    IO.eprintln "error: scripts are nested too deeply"
    return s

/-- Runs the lines of the input. -/
partial def converse (input : IO.FS.Stream) (s : Session) : IO Unit := do
  let line ← input.getLine
  if line.isEmpty then
    let _ ← perform s Program.closing
  else
    let lines := (Text.lines line.toList).map String.ofList
    converse input (← lines.foldlM (fun s line => perform s (Program.inputLine line)) s)

/-- Gives up with a message. -/
def giveUp (message : String) : IO UInt32 := do
  IO.eprintln message
  return 1

/-- What is said of scripts that read one another without end. -/
def endless : String := "Error: scripts are nested too deeply"

/-- Runs a session with the given settings. -/
def start (a : Program.Arguments) (s : Settings) : IO UInt32 := do
  let some opening ← answered (Program.opening s · a) Files.unknown | giveUp endless
  let session ← flush opening.session
  match opening.failure? with
  | some failure => giveUp failure.message
  | none =>
    if a.wantsInput then converse (← IO.getStdin) session
    return 0

/-- Runs the program with arguments that lead to a run. -/
def run (a : Program.Arguments) : IO UInt32 := do
  let v ← environment
  match ← answered (Program.settings · v a) Files.unknown with
  | none => giveUp endless
  | some (.error failure) => giveUp failure.message
  | some (.ok s) =>
    match ← s.log.openFile disk (← now) with
    | some obstacle => giveUp (Program.Failure.log obstacle).message
    | none => start a s

end QuantityCalc.Main

open QuantityCalc in
/-- Runs the program. -/
def main (arguments : List String) : IO UInt32 := do
  match Program.Arguments.ofList arguments with
  | .ok a => Main.run a
  | .error stop =>
    let outcome := stop.outcome
    outcome.output.forM IO.println
    outcome.reports.forM IO.eprintln
    return outcome.status.toUInt32
