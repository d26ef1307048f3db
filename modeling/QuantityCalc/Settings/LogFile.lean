import QuantityCalc.Script.Disk
import QuantityCalc.Script.Path
import QuantityCalc.Settings.Basic

/-!
# The file of the log

A log that goes to a file has it opened before anything is run. The directory of the settings is
made first. The file is named for the stem of the settings and for the time at which it was begun,
unless it is the only one. A stem may hold slashes, so the file may stand in yet another directory;
this one is made if the file cannot be opened at once. `LogSettings.openFile` does all that.
-/

namespace QuantityCalc

/-- What keeps the log from its file. -/
inductive LogObstacle where
  /-- The directory of the settings cannot be made. -/
  | directory (path : String) (fault : FileFault)
  /-- The directory of the file cannot be made. -/
  | fileDirectory (path : String) (fault : FileFault)
  /-- The file cannot be opened. -/
  | file (path : String) (fault : FileFault)
deriving DecidableEq

/-- The wording of an obstacle, each line the cause of the one before. All of them name the
directory of the settings. -/
def LogObstacle.messages : LogObstacle → List String
  | directory path fault => ["Failed to create log directory " ++ path, fault.message]
  | fileDirectory path fault =>
    ["Failed to open log file in " ++ path,
     "failed to create log directory: " ++ fault.message, fault.message]
  | file path fault =>
    ["Failed to open log file in " ++ path,
     "failed to create log file: " ++ fault.message, fault.message]

/-- A minute in universal time. -/
structure Moment where
  /-- The year. -/
  year : Nat := 1970
  /-- The month from 1. -/
  month : Nat := 1
  /-- The day of the month from 1. -/
  day : Nat := 1
  /-- The hour from 0. -/
  hour : Nat := 0
  /-- The minute of the hour from 0. -/
  minute : Nat := 0
deriving DecidableEq

namespace LogSettings

/-- A number with zeros before it, so that it has at least some digits. -/
def padded (digits n : Nat) : String := String.ofList ((toString n).toList.leftpad digits '0')

/-- The date in the name of a file that is begun at a moment, down to the unit at which files are
begun. A file that is never followed by another has none. -/
def date? (l : LogSettings) (now : Moment) : Option String :=
  let day := [padded 4 now.year, padded 2 now.month, padded 2 now.day]
  match l.rotation with
  | "never" => none
  | "hourly" => some ("-".intercalate (day ++ [padded 2 now.hour]))
  | "minutely" => some ("-".intercalate (day ++ [padded 2 now.hour, padded 2 now.minute]))
  | _ => some ("-".intercalate day)

/-- The name of a file that is begun at a moment. -/
def fileName (l : LogSettings) (now : Moment) : String :=
  let stem := if l.fileStem.isEmpty then [] else [l.fileStem]
  ".".intercalate (stem ++ (l.date? now).toList ++ ["log"])

/-- The path of a file that is begun at a moment. -/
def filePath (l : LogSettings) (now : Moment) : Text :=
  Path.join l.directory.toList (l.fileName now).toList

/-- Opens the file of a log that is to have one, and tells what stands in the way. -/
def openFile {m : Type → Type} [Monad m] (disk : Disk m) (now : Moment) (l : LogSettings) :
    m (Option LogObstacle) := do
  if !l.toFile then return none
  if let some fault ← disk.makeDirectory l.directory then
    return some (.directory l.directory fault)
  let path := String.ofList (l.filePath now)
  if (← disk.append path).isNone then return none
  if let some fault ← disk.makeDirectory (String.ofList (Path.directory (l.filePath now))) then
    return some (.fileDirectory l.directory fault)
  return (← disk.append path).map (.file l.directory)

end LogSettings

end QuantityCalc
