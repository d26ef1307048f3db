import QuantityCalc.Script.Path
import QuantityCalc.Settings.Toml.Document
import QuantityCalc.Settings.VariableFile

/-!
# Sources of settings

Settings come from a file and from variables, where the variables have the last word. The file is
the one that the user names, or else the one in the directory of the user's settings, which may be
missing. Variables that are not set may be given in the file of variables in the working directory,
which may be missing too and counts as far as it is UTF-8.
-/

namespace QuantityCalc.Settings

/-- The extension of files of settings. -/
def fileExtension : Text := "toml".toList

/-- The path of the file of variables. -/
def variableFile : String := ".env"

/-- The path of the file of settings that is meant by a path: the path itself, which then has to
have the right extension, or if no file stands there, the path with the extension added. -/
def file? (f : Files) (path : String) : Except Halt (Option String) := do
  let t := path.toList
  if (← f.look path).isFile then
    return if Path.extension? t = some fileExtension then some path else none
  else
    let extended := String.ofList (Path.addExtension fileExtension t)
    return if (← f.look extended).isFile then some extended else none

/-- The directory of the user's settings, if the variables tell it. -/
def userDirectory? (v : Variables) : Option String :=
  (v.lookup "XDG_CONFIG_HOME").filter (·.toList.head? = some '/') <|>
    ((v.lookup "HOME").filter (!·.isEmpty)).map (· ++ "/.config")

/-- The text of the file of settings that is meant by a path, if there is one and it can be read. -/
def text? (f : Files) (path : String) : Except Halt (Option String) := do
  let some found ← file? f path | return none
  return (← f.look found).text.toOption

/-- The assignments of the file that the user names, which has to be readable; without a name, of
the file in the directory of the user's settings, which is passed over if it is not readable. -/
def ofUser? (f : Files) (v : Variables) (path? : Option String) :
    Except Halt (Option (List Assignment)) := do
  match path?, userDirectory? v with
  | some path, _ => return (← text? f path).bind fun text => Toml.assignments? text.toList
  | none, some directory =>
    match ← text? f (directory ++ "/physcalc/config.toml") with
    | some text => return Toml.assignments? text.toList
    | none => return some []
  | none, none => return some []

/-- The variables, with those of the file of variables. -/
def withVariableFile (f : Files) (v : Variables) : Except Halt Variables := do
  return VariableFile.load v (← f.look variableFile).front.toList

/-- The settings from all sources. There are none if a file or a value cannot be read. -/
def load (f : Files) (v : Variables) (path? : Option String) : Except Halt (Option Settings) := do
  let v ← withVariableFile f v
  let fromFile? ← ofUser? f v path?
  return do ofAssignments? ((← fromFile?) ++ ofVariables v)

end QuantityCalc.Settings
