/-! # Files

A directory holds files under paths relative to it. Opening a path goes through
its parts one by one; each part but the last has to be a directory.
-/

namespace Keel.Command

abbrev Directory := List (String × String)

inductive OpenFault where
  | missing
  | isDirectory
  | notDirectory
  deriving DecidableEq, Repr

def OpenFault.message : OpenFault → String
  | .missing => "No such file or directory"
  | .isDirectory => "Is a directory"
  | .notDirectory => "Not a directory"

namespace Directory

def content? (files : Directory) (path : List String) : Option String :=
  files.lookup ("/".intercalate path)

def holds (files : Directory) (path : List String) : Bool :=
  files.any fun (name, _) => ("/".intercalate path ++ "/").toList.isPrefixOf name.toList

/-- Opens a path outside, where nothing is known but the directories above. -/
def openOutside (parts : List String) : Except OpenFault String :=
  if parts.all (fun part => part = "" || part = "." || part = "..") then .error .isDirectory
  else .error .missing

/-- Opens the rest of a path from a directory inside. -/
def openFrom (files : Directory) (inside : List String) : List String → Except OpenFault String
  | [] => .error .isDirectory
  | part :: parts =>
    if part = "" || part = "." then files.openFrom inside parts
    else if part = ".." then
      if inside.isEmpty then openOutside parts else files.openFrom inside.dropLast parts
    else
      let path := inside ++ [part]
      match files.content? path with
      | some content => if parts.isEmpty then .ok content else .error .notDirectory
      | none => if files.holds path then files.openFrom path parts else .error .missing

/-- Opens a path; one that starts with a slash starts outside. -/
def openFile (files : Directory) (path : String) : Except OpenFault String :=
  if path.isEmpty then .error .missing
  else
    match path.splitOn "/" with
    | "" :: parts => openOutside parts
    | parts => files.openFrom [] parts

end Directory

end Keel.Command
