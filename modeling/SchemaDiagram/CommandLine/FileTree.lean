/-
File trees: what a run sees of the files, as a value. A tree has directories
and files, both known by the names on the way to them from the root, and a
place from where relative paths are followed. Only reading and writing whole
files is of interest here, with the faults these can end in. Some of these come
from the paths. The others are up to the tree, which may refuse to have any
place read or written, whether or not a file is there.
-/

namespace SchemaDiagram.CommandLine

/-- The names on the way from the root of a tree. -/
abbrev Path := List String

inductive FileFault
  | notFound
  | denied
  | notDirectory
  | isDirectory
  | nameTooLong
  /-- Any other fault, in the words of the system. -/
  | other (text : String)
  deriving DecidableEq, Repr

def FileFault.message : FileFault → String
  | .notFound => "No such file or directory (os error 2)"
  | .denied => "Permission denied (os error 13)"
  | .notDirectory => "Not a directory (os error 20)"
  | .isDirectory => "Is a directory (os error 21)"
  | .nameTooLong => "File name too long (os error 36)"
  | .other text => text

structure FileTree where
  /-- The working directory. -/
  here : Path
  directories : List Path
  /-- Files with their contents; of two entries for a file the first one counts. -/
  files : List (Path × ByteArray)
  /-- What reading at a place ends in, where it is refused. -/
  unreadable : Path → Option FileFault := fun _ => none
  /-- What writing at a place ends in, where it is refused. -/
  unwritable : Path → Option FileFault := fun _ => none

/-- The bytes that a name may have. -/
def nameLimit : Nat := 255

/-- The bytes that a path may have. -/
def pathLimit : Nat := 4095

/-- Where a path leads. -/
inductive Place
  | directory
  | file (path : Path)
  /-- No file is there, but one can be made. -/
  | free (path : Path)
  /-- The path ends in slashes behind a name that no directory has. Looking there ends in the
  fault. -/
  | slashed (fault : FileFault)
  deriving DecidableEq, Repr

namespace FileTree

def isDirectory (t : FileTree) (path : Path) : Bool := path.isEmpty || t.directories.contains path

def content? (t : FileTree) (path : Path) : Option ByteArray := t.files.lookup path

/-- What a path leads to that ends in a name, when no directory has that path. -/
def lookUp (t : FileTree) (path : Path) (name : String) : Except FileFault Place :=
  if nameLimit < name.utf8ByteSize then .error .nameTooLong
  else if (t.content? path).isSome then .ok (.file path)
  else .ok (.free path)

/-- The fault of going on behind what was found as if it were a directory. -/
def faultBehind : Except FileFault Place → FileFault
  | .error fault => fault
  | .ok (.file _) => .notDirectory
  | .ok _ => .notFound

/-- Follows names from a directory. Every name but the last has to be that of a directory. -/
def follow (t : FileTree) (directory : Path) : List String → Except FileFault Place
  | [] => .ok .directory
  | name :: rest =>
    if name = "" ∨ name = "." then t.follow directory rest
    else if name = ".." then t.follow directory.dropLast rest
    else if t.isDirectory (directory ++ [name]) then t.follow (directory ++ [name]) rest
    else
      let found := t.lookUp (directory ++ [name]) name
      if rest.isEmpty then found
      else if rest.all (· == "") then .ok (.slashed (faultBehind found))
      else .error (faultBehind found)

/-- Follows a path as it is written. One that begins with a slash starts at the root, and an empty
one leads nowhere. -/
def find (t : FileTree) (path : String) : Except FileFault Place :=
  if path = "" then .error .notFound
  else if pathLimit < path.utf8ByteSize then .error .nameTooLong
  else
    t.follow (if path.toList.head? = some '/' then [] else t.here)
      ((path.toList.splitOn '/').map String.ofList)

/-- Reads at a place. -/
def readAt (t : FileTree) (path : Path) : Except FileFault ByteArray :=
  match t.unreadable path with
  | some fault => .error fault
  | none =>
    match t.content? path with
    | some content => .ok content
    | none => .error .notFound

/-- The content of a file. -/
def read (t : FileTree) (path : String) : Except FileFault ByteArray :=
  match t.find path with
  | .error fault => .error fault
  | .ok .directory => .error .isDirectory
  | .ok (.file p) => t.readAt p
  | .ok (.free p) => t.readAt p
  | .ok (.slashed fault) => .error fault

/-- The tree in which a file has a content. -/
def put (t : FileTree) (path : Path) (content : ByteArray) : FileTree :=
  { t with files := (path, content) :: t.files }

/-- Writes at a place. -/
def writeAt (t : FileTree) (path : Path) (content : ByteArray) : Except FileFault FileTree :=
  match t.unwritable path with
  | some fault => .error fault
  | none => .ok (t.put path content)

/-- Writes a file, making it if needed. A fault leaves everything as it is. A slash at the end of
the path is refused whether or not there is a file to write. -/
def write (t : FileTree) (path : String) (content : ByteArray) : Except FileFault FileTree :=
  match t.find path with
  | .error fault => .error fault
  | .ok .directory => .error .isDirectory
  | .ok (.file p) => t.writeAt p content
  | .ok (.free p) => t.writeAt p content
  | .ok (.slashed _) => .error .isDirectory

theorem content?_put (t : FileTree) (p q : Path) (content : ByteArray) :
    (t.put p content).content? q = if q = p then some content else t.content? q := by
  by_cases h : q = p
  · simp [content?, put, h]
  · have hb : (q == p) = false := by simpa using h
    simp [content?, put, List.lookup_cons, hb, h]

/-- The directories that every system has at its root. -/
def standardDirectories : List String :=
  ["bin", "boot", "dev", "etc", "home", "lib", "media", "mnt", "opt", "proc", "root", "run",
    "sbin", "srv", "sys", "tmp", "usr", "var"]

/-- A working directory with files of some names in it. It lies in `tmp` and has the empty name,
which no path can spell. The rest of the system has no files but the empty device and the one
that holds the standard input. Nothing is refused. -/
def ofFiles (input : ByteArray) (files : List (String × ByteArray)) : FileTree where
  here := ["tmp", ""]
  directories := ["tmp", ""] :: standardDirectories.map ([·])
  files := (["dev", "null"], .empty) :: (["dev", "stdin"], input) ::
    files.map fun (name, content) => (["tmp", "", name], content)

end FileTree

end SchemaDiagram.CommandLine
