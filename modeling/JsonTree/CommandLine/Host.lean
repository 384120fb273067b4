import JsonTree.Text.Bytes
import JsonTree.Text.Segments

/-! What a command needs from its surroundings, and a directory in memory that gives it.

A write either fails and leaves every file as it was or replaces one file as a whole.
-/

set_option autoImplicit false

namespace JsonTree.CommandLine

inductive FileError where
  | notFound
  | isDirectory
  | notDirectory
  | nameTooLong
  | notUtf8
  | other (message : String)
  deriving DecidableEq, Repr

def FileError.message : FileError → String
  | .notFound => "No such file or directory (os error 2)"
  | .isDirectory => "Is a directory (os error 21)"
  | .notDirectory => "Not a directory (os error 20)"
  | .nameTooLong => "File name too long (os error 36)"
  | .notUtf8 => "stream did not contain valid UTF-8"
  | .other message => message

class Host (m : Type → Type) where
  readFile : String → m (Except FileError String)
  readInput : m (Except FileError String)
  writeFile : String → String → m (Except FileError Unit)

structure Directory where
  files : List (String × String)
  input : Except FileError String

namespace Directory

def file? (directory : Directory) (name : String) : Option String :=
  (directory.files.find? (·.1 == name)).map Prod.snd

def setFile (directory : Directory) (name content : String) : Directory :=
  if (directory.file? name).isSome then
    { directory with
      files := directory.files.map fun file => if file.1 == name then (name, content) else file }
  else { directory with files := directory.files ++ [(name, content)] }

inductive Place where
  | top
  | outside
  | file (name : String)
  | missing (name : String) (slash : Bool)
  | failure (error : FileError)
  deriving DecidableEq, Repr

/-- Follow the parts of a file path. Nothing lies inside a file, and of what is outside
the directory no more is known than that there are directories around it. -/
def follow (directory : Directory) : Place → List (List Char) → Place
  | place, [] => place
  | .top, part :: rest =>
    if part = [] ∨ part = ['.'] then follow directory .top rest
    else if part = ['.', '.'] then follow directory .outside rest
    else if 255 < byteLength part then .failure .nameTooLong
    else
      let name := String.ofList part
      follow directory
        (if (directory.file? name).isSome then .file name else .missing name false) rest
  | .outside, part :: rest =>
    if part = [] ∨ part = ['.'] ∨ part = ['.', '.'] then follow directory .outside rest
    else if 255 < byteLength part then .failure .nameTooLong
    else .failure .notFound
  | .file _, _ :: _ => .failure .notDirectory
  | .missing name _, part :: rest =>
    if part = [] then follow directory (.missing name true) rest else .failure .notFound
  | .failure error, _ => .failure error

def locate (directory : Directory) (path : String) : Place :=
  match path.toList with
  | [] => .failure .notFound
  | first :: rest =>
    if 4095 < byteLength (first :: rest) then .failure .nameTooLong
    else
      directory.follow (if first = '/' then .outside else .top) (segments '/' (first :: rest))

def read (directory : Directory) (path : String) : Except FileError String :=
  match directory.locate path with
  | .file name =>
    match directory.file? name with
    | some content => .ok content
    | none => .error .notFound
  | .top | .outside => .error .isDirectory
  | .missing _ _ => .error .notFound
  | .failure error => .error error

def write (directory : Directory) (path content : String) : Except FileError Directory :=
  match directory.locate path with
  | .file name | .missing name false => .ok (directory.setFile name content)
  | .missing _ true => .error .isDirectory
  | .top | .outside => .error .isDirectory
  | .failure error => .error error

instance : Host (StateM Directory) where
  readFile path := do return (← get).read path
  readInput := do return (← get).input
  writeFile path content := do
    match (← get).write path content with
    | .ok changed => do
      set changed
      return .ok ()
    | .error error => return .error error

end Directory

end JsonTree.CommandLine
