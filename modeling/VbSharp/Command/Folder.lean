import VbSharp.Text.Blank

/-!
# Files

What a run needs to know about files: the contents of the ones it reads, and whether it can create the
one it writes.
-/
namespace VbSharp.Command

/-- Why a file cannot be used. -/
inductive FileFault where
  | missing
  | isFolder
  | notFolder
  | notText
  | other (text : String)
  deriving Repr, DecidableEq

def FileFault.message : FileFault → String
  | .missing => "No such file or directory (os error 2)"
  | .isFolder => "Is a directory (os error 21)"
  | .notFolder => "Not a directory (os error 20)"
  | .notText => "stream did not contain valid UTF-8"
  | .other text => text

/-- How a run sees files. -/
structure Files where
  bytes : String → Except FileFault ByteArray
  create : String → Except FileFault Unit

def Files.text (files : Files) (path : String) : Except FileFault String := do
  match String.fromUTF8? (← files.bytes path) with
  | some text => return text
  | none => throw .notText

/-- A folder that holds files and no folders. -/
structure Folder where
  files : List (String × ByteArray)

namespace Folder

/-- What a path leads to. -/
inductive Place where
  | folder
  | file (name : String)
  /-- A name with a slash behind it, which only a folder may have. -/
  | asFolder (name : String)
  /-- Below something that does not exist. -/
  | nowhere
  /-- Below a file. -/
  | belowFile
  deriving Repr, DecidableEq

/-- Whether a step of a path names nothing: it stays where it is or goes back to the folder around. -/
def isNameless (step : String) : Bool :=
  step == "." || step == ".."

/-- Follows a path from the folder. Nothing is known to be around the folder but folders. -/
def follow (folder : Folder) (path : String) : Place :=
  let steps := (fieldsAt (· == '/') path.toList).map String.ofList
  let leaves := path.toList.head? == some '/' || (steps.takeWhile isNameless).contains ".."
  match steps.dropWhile isNameless with
  | [] => .folder
  | name :: rest =>
    if leaves then .nowhere
    else if rest.isEmpty then
      if path.toList.getLast? == some '/' then .asFolder name else .file name
    else if (folder.files.lookup name).isSome then .belowFile
    else .nowhere

def bytes (folder : Folder) (path : String) : Except FileFault ByteArray :=
  match folder.follow path with
  | .folder => .error .isFolder
  | .nowhere => .error .missing
  | .belowFile => .error .notFolder
  | .asFolder name => .error (if (folder.files.lookup name).isSome then .notFolder else .missing)
  | .file name =>
    match folder.files.lookup name with
    | some contents => .ok contents
    | none => .error .missing

/-- Whether a file can be created. A path that asks for a folder is refused before the name is looked
up. -/
def create (folder : Folder) (path : String) : Except FileFault Unit :=
  match folder.follow path with
  | .folder | .asFolder _ => .error .isFolder
  | .nowhere => .error .missing
  | .belowFile => .error .notFolder
  | .file _ => .ok ()

def view (folder : Folder) : Files :=
  ⟨folder.bytes, folder.create⟩

/-- The file that a text changes when it is written to a path, with its new contents. -/
def change? (folder : Folder) (path text : String) : Option (String × String) :=
  match folder.follow path with
  | .file name =>
    if (folder.files.lookup name).any fun old => old.toList == text.toUTF8.toList then none
    else some (name, text)
  | _ => none

end Folder
end VbSharp.Command
