import QuantityCalc.Script.Files

/-!
# Changes of files

The program makes directories and opens files to write in them. A `Disk` is whatever such changes
are made on, and `FileTree.disk` makes them on a directory in memory.
-/

namespace QuantityCalc

/-- The changes that can be made on files. Each tells why it fails, if it does. -/
structure Disk (m : Type → Type) where
  /-- Makes a directory, and first those in which it stands, unless they are there. -/
  makeDirectory : String → m (Option FileFault)
  /-- Opens a file to write at its end. A file is made if nothing stands at the path. -/
  append : String → m (Option FileFault)

namespace FileTree

/-- The segments of a path without the empty ones. -/
def steps (path : String) : List String := (segments path).filter (· ≠ "")

/-- The place to which segments lead from a place. -/
def reach (place : List String) : List String → List String
  | [] => place
  | segment :: rest =>
    if segment = "" || segment = "." then reach place rest
    else if segment = ".." then reach place.dropLast rest
    else reach (place ++ [segment]) rest

/-- Puts something at a place at which nothing stands, into a directory. -/
def put (t : FileTree) (place path : List String) (s : Sighting) : Except FileFault FileTree :=
  if path.getLast?.all (fun segment => segment = "." || segment = "..") then .error .noEntry
  else if t.follow place path.dropLast = .directory then .ok ⟨(reach place path, s) :: t.entries⟩
  else .error .noEntry

/-- Makes a directory in one that is there, unless it is there itself. -/
def makeLast (t : FileTree) (place path : List String) : Except FileFault FileTree :=
  match t.follow place path with
  | .directory => .ok t
  | .file _ | .broken _ => .error .occupied
  | .absent .noEntry => t.put place path .directory
  | .absent fault => .error fault

/-- Makes a directory and those in which it stands. The last segment of its path comes first. -/
def makeAll (t : FileTree) (place : List String) : List String → Except FileFault FileTree
  | [] => .ok t
  | segment :: above =>
    match t.makeLast place (segment :: above).reverse with
    | .error .noEntry => do (← t.makeAll place above).makeLast place (segment :: above).reverse
    | made => made

/-- Makes a directory and those in which it stands. The last of them is not made if single dots
follow its name, since such a path leads into it. -/
def makeDirectory (t : FileTree) (path : String) : Except FileFault FileTree :=
  if path.isEmpty then .ok t
  else
    match pathFault? path with
    | some fault => .error fault
    | none =>
      match t.makeLast (start path) (steps path) with
      | .error .noEntry => do
        let above := ((steps path).filter (· ≠ ".")).dropLast
        (← t.makeAll (start path) above.reverse).makeLast (start path) (steps path)
      | made => made

/-- Opens a file to write at its end. The file is made if nothing stands at the path. -/
def append (t : FileTree) (path : String) : Except FileFault FileTree :=
  match pathFault? path with
  | some fault => .error fault
  | none =>
    match t.follow (start path) (steps path) with
    | .file _ | .broken _ => .ok t
    | .directory => .error .isDirectory
    | .absent .noEntry => t.put (start path) (steps path) (.file "")
    | .absent fault => .error fault

/-- A change of a tree. If it fails, the tree stays as it is. -/
def change (f : FileTree → Except FileFault FileTree) : StateM FileTree (Option FileFault) :=
  fun t =>
    match f t with
    | .ok changed => (none, changed)
    | .error fault => (some fault, t)

/-- Changes on a directory in memory. -/
def disk : Disk (StateM FileTree) where
  makeDirectory path := change (·.makeDirectory path)
  append path := change (·.append path)

end FileTree

end QuantityCalc
