/-!
# Directories of files

The files that a command can see, by their paths from the root, and the directory that it runs in. A
name is looked up component by component, as an operating system does it.
-/

namespace LeftRecursion

inductive FileError where
  | notFound
  | notADirectory
  | isDirectory
  | notUtf8
  /-- Anything else that the system reports, in its own words. -/
  | other (report : String)
  deriving DecidableEq

def FileError.message : FileError → String
  | notFound => "No such file or directory (os error 2)"
  | notADirectory => "Not a directory (os error 20)"
  | isDirectory => "Is a directory (os error 21)"
  | notUtf8 => "stream did not contain valid UTF-8"
  | other report => report

/-- The names of the directories on the way to a file, and of the file. -/
abbrev Path := List String

namespace Path

/-- Components of a name that lead nowhere else. -/
def stays (component : String) : Bool :=
  component = "" ∨ component = "."

def ofName (name : String) : Path :=
  (name.toList.splitOn '/').map String.ofList

def start (place : Path) (name : String) : Path :=
  if name.toList.head? = some '/' then [] else place

end Path

structure Directory where
  files : List (Path × ByteArray)
  /-- The way from the root to the directory itself. -/
  place : Path

namespace Directory

/-- A directory below the root, with some files in it or, if their names begin at the root, beside
it. A name with slashes leads through directories. -/
def ofFiles (files : List (String × ByteArray)) : Directory :=
  let place := ["work"]
  { files := files.map fun f =>
      (Path.start place f.1 ++ (Path.ofName f.1).filter (¬ Path.stays ·), f.2)
    place }

def file? (d : Directory) (path : Path) : Option ByteArray :=
  d.files.lookup path

def isDirectory (d : Directory) (path : Path) : Bool :=
  path.isPrefixOf d.place || d.files.any fun f => path.isPrefixOf f.1

/-- What lies under `components`, starting from `path`. The root is above itself. -/
def readFrom (d : Directory) (path : Path) : Path → Except FileError ByteArray
  | [] => .error .isDirectory
  | c :: components =>
    if Path.stays c then
      d.readFrom path components
    else if c = ".." then
      d.readFrom path.dropLast components
    else match d.file? (path ++ [c]) with
      | some content => if components = [] then .ok content else .error .notADirectory
      | none =>
        if d.isDirectory (path ++ [c]) then d.readFrom (path ++ [c]) components
        else .error .notFound

def read (d : Directory) (name : String) : Except FileError ByteArray :=
  if name = "" then .error .notFound
  else d.readFrom (Path.start d.place name) (Path.ofName name)

end Directory

end LeftRecursion
