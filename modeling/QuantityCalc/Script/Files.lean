import QuantityCalc.Error
import QuantityCalc.Text.Basic

/-!
# Files

A session never touches the file system. It asks what stands at a path, and the answer is part of
its input: `Files` holds the answers that are known. A `FileTree` is a directory in memory, which
answers for every path.
-/

namespace QuantityCalc

/-- What stands at a path. -/
inductive Sighting where
  /-- A regular file with its text. -/
  | file (text : String)
  /-- A regular file that is not UTF-8, with the text of the lines before the first broken one. -/
  | broken (front : String)
  /-- A directory. -/
  | directory
  /-- Nothing that can be read. -/
  | absent (fault : FileFault)
deriving DecidableEq

namespace Sighting

/-- Whether a regular file stands at the path. -/
def isFile : Sighting → Bool
  | file _ | broken _ => true
  | directory | absent _ => false

/-- The text of the file, or why it cannot be read. -/
def text : Sighting → Except FileFault String
  | file text => .ok text
  | broken _ => .error .invalidText
  | directory => .error .isDirectory
  | absent fault => .error fault

/-- The lines of a file up to the first one that is not UTF-8, as one text. There are none if nobody
can read a file there. -/
def front : Sighting → String
  | file text => text
  | broken front => front
  | directory | absent _ => ""

/-- The lines with their line feeds, up to the first one that is not UTF-8. -/
def decodedLines (bytes : List UInt8) : List String :=
  let lines := (bytes.splitOn 10).map fun line => String.fromUTF8? ⟨line.toArray⟩
  ((lines.takeWhile Option.isSome).filterMap id).map (· ++ "\n")

/-- A regular file of the given bytes. -/
def ofBytes (bytes : ByteArray) : Sighting :=
  match String.fromUTF8? bytes with
  | some text => file text
  | none => broken (String.join (decodedLines bytes.toList))

end Sighting

/-- What is known of the file system: the sighting at a path, or `none` if nobody has looked yet. -/
structure Files where
  /-- The sighting at a path. -/
  at? : String → Option Sighting

namespace Files

/-- Nothing is known. -/
def unknown : Files := ⟨fun _ => none⟩

/-- What is known after a look at one more path. -/
def insert (f : Files) (path : String) (s : Sighting) : Files :=
  ⟨fun p => if p = path then some s else f.at? p⟩

end Files

/-- A directory in memory, in which a session works. A place is the list of the names that lead to
it from the root. What stands on the way to an entry is a directory. -/
structure FileTree where
  /-- The entries. A directory is listed if nothing stands in it. -/
  entries : List (List String × Sighting)

namespace FileTree

/-- The place of the working directory. Its name is one that no path can spell, so a path that
leaves the directory does not come back by name. -/
def home : List String := [""]

/-- The segments of a path. -/
def segments (path : String) : List String := (path.toList.splitOn '/').map String.ofList

/-- The tree with entries at the given paths from the working directory. -/
def ofList (l : List (String × Sighting)) : FileTree :=
  ⟨l.map fun (path, s) => (home ++ (segments path).filter (fun p => p ≠ "" && p ≠ "."), s)⟩

/-- What stands at a place. -/
def entry (t : FileTree) (place : List String) : Sighting :=
  match t.entries.find? (·.1 = place) with
  | some (_, s) => s
  | none =>
    if place.isPrefixOf home || t.entries.any (place.isPrefixOf ·.1) then .directory
    else .absent .noEntry

/-- Follows segments from a place. The root stands in itself. -/
def follow (t : FileTree) (place : List String) : List String → Sighting
  | [] => t.entry place
  | segment :: rest =>
    match t.entry place with
    | .file _ | .broken _ => .absent .notDirectory
    | .absent fault => .absent fault
    | .directory =>
      if segment = "" || segment = "." then t.follow place rest
      else if segment = ".." then t.follow place.dropLast rest
      else if 255 < segment.utf8ByteSize then .absent .nameTooLong
      else t.follow (place ++ [segment]) rest

/-- The place at which a path starts. -/
def start (path : String) : List String := if path.toList.head? = some '/' then [] else home

/-- Why nothing can stand at a path in any tree. -/
def pathFault? (path : String) : Option FileFault :=
  if path.toList.contains '\x00' then some .nullInPath
  else if path.isEmpty then some .noEntry
  else if 4096 ≤ path.utf8ByteSize then some .nameTooLong
  else none

/-- What stands at a path. -/
def sighting (t : FileTree) (path : String) : Sighting :=
  match pathFault? path with
  | some fault => .absent fault
  | none => t.follow (start path) (segments path)

/-- All that a tree knows. -/
def files (t : FileTree) : Files := ⟨fun path => some (t.sighting path)⟩

end FileTree

end QuantityCalc
