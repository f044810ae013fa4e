import ChipEight.Fault
/-!
# A tree of files

A stand-in for the files of a system, with which the command can be tried without a disk: the
command itself takes any function from paths to contents, and no theorem depends on this one.
Reading goes by path in a tree of directories and files.  A path is followed part by part, from the
root if it begins with a slash and from the working directory if not.  Empty parts and `.` stay
where they are, `..` goes up, and above the root is the root.  The walk fails at the first part
that is too long for a name, that names nothing, or that would lead below a file; a walk that ends
at a directory has found nothing to read.
-/

namespace ChipEight

namespace FileError

def notFound : FileError := .system 2 "NotFound" "No such file or directory"
def notADirectory : FileError := .system 20 "NotADirectory" "Not a directory"
def isADirectory : FileError := .system 21 "IsADirectory" "Is a directory"
def nameTooLong : FileError := .system 36 "InvalidFilename" "File name too long"

end FileError

namespace CommandLine

/-- A place in a tree: the names on the way to it from the root, the last one first. -/
abbrev Place := List String

/-- What stands at a place. -/
inductive Entry where
  | directory
  | file (bytes : List UInt8)
  deriving DecidableEq, Repr

/-- Directories and files by their places; the root and the working directory are always there. -/
structure FileTree where
  entries : List (Place × Entry) := []
  workingDirectory : Place := []

namespace FileTree

/-- The bytes that a name may have. -/
def nameLimit : Nat := 255

/-- The bytes that a path may have. -/
def pathLimit : Nat := 4095

/-- What stands at a place. -/
def entry? (t : FileTree) (place : Place) : Option Entry := t.entries.lookup place

/-- Follows the parts of a path from the directory at a place. -/
def follow (t : FileTree) : Place → List String → Except FileError (List UInt8)
  | _, [] => .error .isADirectory
  | place, part :: rest =>
    if part.isEmpty || part == "." then t.follow place rest
    else if part == ".." then t.follow place.tail rest
    else if nameLimit < part.utf8ByteSize then .error .nameTooLong
    else
      match t.entry? (part :: place) with
      | none => .error .notFound
      | some .directory => t.follow (part :: place) rest
      | some (.file bytes) => if rest.isEmpty then .ok bytes else .error .notADirectory

def read (t : FileTree) (path : String) : Except FileError (List UInt8) :=
  if path.isEmpty then .error .notFound
  else if pathLimit < path.utf8ByteSize then .error .nameTooLong
  else if path.startsWith "/" then t.follow [] (path.splitOn "/")
  else t.follow t.workingDirectory (path.splitOn "/")

/-! ### The usual tree -/

/-- The directories below the root of a system. -/
def rootDirectories : List String :=
  ["bin", "boot", "dev", "etc", "home", "lib", "media", "mnt", "opt", "proc", "root", "run", "sbin",
    "srv", "sys", "tmp", "usr", "var"]

/-- A directory for temporary work.  It has no name, so that no path leads into it from above. -/
def scratch : Place := ["", "tmp"]

/-- A system with a device that is always empty, and with the files in its working directory. -/
def around (files : List (String × List UInt8)) : FileTree where
  entries :=
    files.map (fun f => (f.1 :: scratch, .file f.2))
      ++ (["null", "dev"], .file []) :: rootDirectories.map fun name => ([name], .directory)
  workingDirectory := scratch

end FileTree

end CommandLine

end ChipEight
