import QuantityCalc.Text.Basic

/-!
# Paths

A path is a text whose segments stand between slashes. Its file name is its last segment, where
slashes and single dots at the end do not count. The extension is what follows the last dot of a
file name, unless that dot is its first character.
-/

namespace QuantityCalc.Path

/-- A path without the slashes and the single dots at its end; both texts are reversed. -/
def dropTrail : Text → Text
  | '/' :: t => dropTrail t
  | '.' :: '/' :: t => dropTrail ('/' :: t)
  | t => t

/-- A path as what precedes its file name, the file name, and what follows it. -/
structure Parts where
  /-- The text up to the slash before the file name. -/
  before : Text
  /-- The file name. -/
  fileName : Text
  /-- The slashes and the single dots at the end. -/
  after : Text

/-- Splits a path at its file name, if it has one. -/
def split? (t : Text) : Option Parts :=
  let kept := dropTrail t.reverse
  let fileName := (kept.takeWhile (· ≠ '/')).reverse
  if fileName.isEmpty || fileName = ['.'] || fileName = ['.', '.'] then none
  else some ⟨(kept.dropWhile (· ≠ '/')).reverse, fileName, t.drop kept.length⟩

/-- The path of the directory in which a file stands. A file name alone stands in the working
directory, whose path is empty. -/
def directory (t : Text) : Text :=
  match split? t with
  | none => t
  | some p => (dropTrail p.before.reverse).reverse

/-- Splits the extension from a file name. -/
def splitExtension (fileName : Text) : Text × Option Text :=
  let extension := (fileName.reverse.takeWhile (· ≠ '.')).reverse
  match (fileName.reverse.dropWhile (· ≠ '.')).reverse.dropLast with
  | [] => (fileName, none)
  | stem => (stem, some extension)

/-- The path with another extension. A path without a file name stays as it is. A file name that is
two dots and an extension loses its extension, and a file name with it. -/
def withExtension (extension : Text) (t : Text) : Text :=
  match split? t with
  | none => t
  | some p =>
    match splitExtension p.fileName with
    | (['.'], some _) =>
      if p.after.isEmpty then p.before ++ ['.', '.'] else p.before ++ '.' :: '.' :: extension
    | (stem, _) => p.before ++ stem ++ '.' :: extension

/-- The extension of a path, if it has one. -/
def extension? (t : Text) : Option Text := (split? t).bind fun p => (splitExtension p.fileName).2

/-- The path with one more extension. A path without a file name stays as it is. -/
def addExtension (extension : Text) (t : Text) : Text :=
  match split? t with
  | none => t
  | some p => p.before ++ p.fileName ++ '.' :: extension

/-- The path that is reached from a directory. An absolute path is reached from everywhere, and the
empty directory is the working directory. -/
def join (directory path : Text) : Text :=
  if path.head? = some '/' || directory.isEmpty then path
  else if directory.getLast? = some '/' then directory ++ path
  else directory ++ '/' :: path

end QuantityCalc.Path
