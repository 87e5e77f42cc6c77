/-
Files and directories, and how a path is followed.

A path is a string of bytes, cut into names at every slash. `Files.find` follows it from the working directory, name by
name: the place reached so far has to be a directory for every name, also for an empty one, so a slash behind the name
of a file is an error. Nothing is known of the places outside the working directory, which are taken for empty
directories.
-/
import SecureEndpoint.Host.OsError
import SecureEndpoint.Text.Lossy

namespace SecureEndpoint.Host

/-- a path, or a name in it, as bytes -/
abbrev Path := List UInt8

/-- a path as it is shown -/
def Path.shown (p : Path) : String := Text.lossy p

/-- the path that a text spells -/
def Path.ofText (s : String) : Path := s.toUTF8.toList

/-- the slash between names -/
def slash : UInt8 := 47

/-- the names of a path -/
def Path.names (p : Path) : List Path := p.splitOn slash

/-- why a file or a directory could not be used -/
inductive AccessError where
  /-- the operating system refused -/
  | os (e : OsError)
  /-- a path with a NUL character never reaches the operating system -/
  | nulInPath
  deriving DecidableEq, Repr

/-- the text of a failed access -/
def AccessError.message : AccessError → String
  | .os e => e.message
  | .nulInPath => "file name contained an unexpected NUL byte"

/-- the files below the working directory -/
structure Files where
  /-- directories, by the names that lead to them -/
  directories : List (List Path) := []
  /-- files with their contents -/
  files : List (List Path × List UInt8) := []
  deriving Repr

/-- what a path leads to -/
inductive Place where
  | file (contents : List UInt8)
  /-- a directory below the working directory -/
  | directory (names : List Path)
  /-- a directory of which nothing is known -/
  | outside
  deriving Repr

/-- the longest name -/
def maxNameLength : Nat := 255

/-- the length that no path reaches -/
def maxPathLength : Nat := 4096

namespace Files

/-- the names of a place begin the names of another, which is there or below it -/
def leads (place : List Path) (target : List Path) : Bool := place.isPrefixOf target

/-- what the names lead to; every place on the way to a file or a directory is a directory -/
def lookup (f : Files) (names : List Path) : Option Place :=
  match f.files.find? fun p => p.1 == names with
  | some p => some (.file p.2)
  | none =>
    if names.isEmpty || f.directories.any (leads names) || f.files.any (fun p => leads names p.1) then
      some (.directory names)
    else none

/-- one name further -/
def enter (f : Files) (place : Place) (name : Path) : Except OsError Place :=
  match place with
  | .file _ => .error .notADirectory
  | .outside =>
    if name = [] ∨ name = [46] ∨ name = [46, 46] then .ok .outside
    else if maxNameLength < name.length then .error .nameTooLong
    else .error .notFound
  | .directory names =>
    if name = [] ∨ name = [46] then .ok place
    else if name = [46, 46] then .ok (if names = [] then .outside else .directory names.dropLast)
    else if maxNameLength < name.length then .error .nameTooLong
    else (f.lookup (names ++ [name])).elim (.error .notFound) .ok

/-- what a path leads to -/
def find (f : Files) (p : Path) : Except AccessError Place :=
  if p.contains 0 then .error .nulInPath
  else if p = [] then .error (.os .notFound)
  else if maxPathLength ≤ p.length then .error (.os .nameTooLong)
  else
    let start := if p.head? = some slash then Place.outside else .directory []
    match p.names.foldlM f.enter start with
    | .ok place => .ok place
    | .error e => .error (.os e)

/-- the contents of the file at a path -/
def read (f : Files) (p : Path) : Except AccessError (List UInt8) :=
  match f.find p with
  | .ok (.file contents) => .ok contents
  | .ok _ => .error (.os .isADirectory)
  | .error e => .error e

/-- whether a path leads to a directory -/
def isDirectory (f : Files) (p : Path) : Except AccessError Bool :=
  match f.find p with
  | .ok (.file _) => .ok false
  | .ok _ => .ok true
  | .error e => .error e

/-- the files and directories at these paths; of two files at one path the later one counts -/
def ofEntries (directories : List Path) (files : List (Path × List UInt8)) : Files where
  directories := directories.map clean
  files := (files.map fun p => (clean p.1, p.2)).reverse
where
  /-- the names that count -/
  clean (p : Path) : List Path := p.names.filter fun n => n ≠ [] ∧ n ≠ [46]

end Files

end SecureEndpoint.Host
