/-!
# Files

What a path leads to. Directories and files form one tree; a place in it is the list of names that
lead there from the root. A path is walked name by name, from the root if it begins with a slash
and from the working directory otherwise: an empty name and `.` stay, `..` goes up, and any other
name goes down if something is there. Only a directory can be left, so a path that goes on behind a
file, be it by a slash alone, leads nowhere.
-/

namespace Interchange

/-- Why nothing can be read under a path. -/
inductive FileFault where
  | zeroCharacter
  | missing
  /-- The path goes on behind a file. -/
  | throughFile
  | isDirectory
  | longName
  | other (text : String)
deriving DecidableEq, Repr

def FileFault.message : FileFault → String
  | .zeroCharacter => "file name contained an unexpected NUL byte"
  | .missing => "No such file or directory (os error 2)"
  | .throughFile => "Not a directory (os error 20)"
  | .isDirectory => "Is a directory (os error 21)"
  | .longName => "File name too long (os error 36)"
  | .other text => text

/-- The names that lead to a place from the root. -/
abbrev Place := List String

/-- What stands at a place. -/
inductive Entry (α : Type) where
  | directory
  | file (content : α)

/-- A tree of files. Every place above a file or a directory is a directory. -/
structure Files (α : Type) where
  files : List (Place × α)
  directories : List Place
  /-- Where paths begin that do not begin at the root. -/
  home : Place

namespace Files

variable {α : Type}

/-- The directories that every tree has. -/
def standardDirectories : List Place :=
  ["bin", "boot", "dev", "etc", "home", "lib", "media", "mnt", "opt", "proc", "root", "run", "sbin",
    "srv", "sys", "tmp", "usr", "var"].map ([·])

/-- The working directory of a run. -/
def workingDirectory : Place := ["tmp", "run"]

/-- The names of a path. -/
def namesOf (path : String) : List String := path.splitOn "/"

/-- Does a name stay where it is? -/
def stays (name : String) : Bool := name = "" || name = "."

/-- Files of the working directory by their names, which may lead into directories below it. What
stands for nothing is the content of the null device. -/
def ofNamed (nothing : α) (named : List (String × α)) : Files α where
  files := (["dev", "null"], nothing) :: named.map fun (name, content) =>
    (workingDirectory ++ (namesOf name).filter (!stays ·), content)
  directories := workingDirectory :: standardDirectories
  home := workingDirectory

/-- What stands at a place, if anything does. -/
def entry? (tree : Files α) (place : Place) : Option (Entry α) :=
  match tree.files.lookup place with
  | some content => some (.file content)
  | none =>
    if tree.directories.any place.isPrefixOf || tree.files.any (place.isPrefixOf ·.1) then
      some .directory
    else none

/-- The most bytes that a name may have. -/
def maxName : Nat := 255

/-- A path has fewer bytes than this. -/
def pathLimit : Nat := 4096

/-- Walks on from a place along names. -/
def walk (tree : Files α) (place : Place) : List String → Except FileFault (Entry α)
  | [] => match tree.entry? place with
    | some entry => .ok entry
    | none => .error .missing
  | name :: names => match tree.entry? place with
    | none => .error .missing
    | some (.file _) => .error .throughFile
    | some .directory =>
      if stays name then walk tree place names
      else if name = ".." then walk tree place.dropLast names
      else if maxName < name.utf8ByteSize then .error .longName
      else walk tree (place ++ [name]) names

/-- The content of the file that a path leads to. -/
def read (tree : Files α) (path : String) : Except FileFault α :=
  if path.contains '\x00' then .error .zeroCharacter
  else if pathLimit ≤ path.utf8ByteSize then .error .longName
  else if path = "" then .error .missing
  else
    let start := if path.startsWith "/" then [] else tree.home
    match walk tree start (namesOf path) with
    | .ok (.file content) => .ok content
    | .ok .directory => .error .isDirectory
    | .error fault => .error fault

end Files
end Interchange
