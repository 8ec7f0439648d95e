/-!
# The files a command works on

A tree of files and directories below the working directory, which is all that a command reads and
changes. A path is walked name by name: what stands before a slash must be a directory. Writing
replaces or adds one file and leaves everything else as it is.
-/

namespace Qumode.CommandLine

/-- What a name stands for. -/
inductive Entry where
  | directory
  | file (content : ByteArray)

instance : DecidableEq Entry
  | .directory, .directory => isTrue rfl
  | .directory, .file _ => isFalse nofun
  | .file _, .directory => isFalse nofun
  | .file a, .file b =>
    match ByteArray.instDecidableEq a b with
    | isTrue same => isTrue (congrArg Entry.file same)
    | isFalse differ => isFalse fun same => differ (Entry.file.inj same)

/-- Why the system refuses to read or write. -/
inductive FileFault where
  | notFound
  | notDirectory
  | isDirectory
  | nameTooLong
  | notUtf8
  deriving DecidableEq, Repr

def FileFault.text : FileFault → String
  | notFound => "No such file or directory (os error 2)"
  | notDirectory => "Not a directory (os error 20)"
  | isDirectory => "Is a directory (os error 21)"
  | nameTooLong => "File name too long (os error 36)"
  | notUtf8 => "stream did not contain valid UTF-8"

/-- The names from the working directory down to an entry. -/
abbrev Location := List String

/-- Entries by location. A directory is there when it is listed or holds something. -/
structure Files where
  entries : List (Location × Entry)

/-- The names of a path, between its slashes. -/
def pathNames (path : String) : List String := (path.toList.splitOn '/').map String.ofList

/-- A path without the slashes at its end. -/
def withoutLastSlashes (path : String) : String :=
  String.ofList (path.toList.reverse.dropWhile (· = '/')).reverse

/-- The directory that holds a location; above the working directory it is named by dots. -/
def Location.parent (here : Location) : Location :=
  if here = ["/"] then here
  else if here.all (· = "..") then here ++ [".."]
  else here.dropLast

namespace Files

/-- What stands at a location. The working directory, the directories above it and the root of the
system are always there. -/
def find? (files : Files) (location : Location) : Option Entry :=
  match files.entries.lookup location with
  | some entry => some entry
  | none =>
    if location.all (· = "..") || location = ["/"]
        || files.entries.any fun (l, _) => location.isPrefixOf l then
      some .directory
    else none

/-- The location with one more file, which replaces what stood there. -/
def put (files : Files) (location : Location) (content : ByteArray) : Files :=
  ⟨(location, .file content) :: files.entries.filter fun (l, _) => l ≠ location⟩

/-- The directory that the names lead to from `here`. -/
def walk (files : Files) (here : Location) : List String → Except FileFault Location
  | [] => .ok here
  | "" :: rest | "." :: rest => walk files here rest
  | ".." :: rest => walk files (Location.parent here) rest
  | name :: rest =>
    if 255 < name.utf8ByteSize then .error .nameTooLong
    else match files.find? (here ++ [name]) with
      | none => .error .notFound
      | some (.file _) => .error .notDirectory
      | some .directory => walk files (here ++ [name]) rest

/-- A path: the names before the last slash and the name behind it. A path from the root of the
system begins with the name of the root. -/
def split? (path : String) : Option (List String × String) :=
  if path.isEmpty then none
  else
    let names := pathNames path
    let before := match names.dropLast with
      | "" :: rest => "/" :: rest
      | before => before
    some (before, names.getLastD "")

/-- What a path leads to. -/
def resolve (files : Files) (path : String) : Except FileFault Entry := do
  let some (before, last) := split? path | throw .notFound
  let here ← files.walk [] before
  if last ∈ ["", ".", ".."] then
    let _ ← files.walk here [last]
    pure .directory
  else if 255 < last.utf8ByteSize then throw .nameTooLong
  else match files.find? (here ++ [last]) with
    | some entry => pure entry
    | none => throw .notFound

/-- Whether a path leads to something. -/
def exists? (files : Files) (path : String) : Bool :=
  match files.resolve path with
  | .ok _ => true
  | .error _ => false

/-- The text of a file. -/
def read (files : Files) (path : String) : Except FileFault String := do
  match ← files.resolve path with
  | .directory => throw .isDirectory
  | .file content =>
    match String.fromUTF8? content with
    | some text => pure text
    | none => throw .notUtf8

/-- The tree after writing a file. A path that ends in a slash names a directory, whether it is
there or not. -/
def write (files : Files) (path text : String) : Except FileFault Files := do
  let trimmed := withoutLastSlashes path
  let some (before, last) := split? trimmed
    | throw (if path.isEmpty then .notFound else .isDirectory)
  let here ← files.walk [] before
  if trimmed ≠ path || last ∈ ["", ".", ".."] then throw .isDirectory
  else if 255 < last.utf8ByteSize then throw .nameTooLong
  else if files.find? (here ++ [last]) = some .directory then throw .isDirectory
  else pure (files.put (here ++ [last]) text.toUTF8)

end Files

/-- The last name of a path. -/
def fileName (path : String) : String :=
  ((pathNames path).filter fun name => name ≠ "" && name ≠ ".").getLastD ""

/-- A file name before and behind its last point; a point in front does not count. -/
def splitExtension (name : String) : String × String :=
  let reversed := name.toList.reverse
  let extension := (reversed.takeWhile (· ≠ '.')).reverse
  match reversed.dropWhile (· ≠ '.') with
  | [] | ['.'] => (name, "")
  | _ :: stem => (String.ofList stem.reverse, String.ofList extension)

/-- The last name of a path without its extension. -/
def fileStem (path : String) : String := (splitExtension (fileName path)).1

def extension (path : String) : String := (splitExtension (fileName path)).2

end Qumode.CommandLine
