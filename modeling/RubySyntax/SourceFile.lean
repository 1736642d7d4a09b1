import RubySyntax.SourceText
import RubySyntax.TextLines

/-!
# Source files

A source file is looked up under a path from a working directory, which stands
in the directory for temporary files.  Its bytes are UTF-8, and each line break
in it counts as a line feed.
-/

namespace RubySyntax

/-- Why a path leads to no source text. -/
inductive FileFault where
  | missing
  | isDirectory
  /-- A component in front of the last one is a file. -/
  | notADirectory
  | notUtf8
  /-- The path holds a character that no name can hold. -/
  | invalidName
  /-- A component is longer than a name can be, or the path longer than a path can be. -/
  | nameTooLong
deriving DecidableEq, Repr

def sourceOfBytes (bytes : List Nat) : Except FileFault (List Char) :=
  match decodeUtf8? bytes with
  | some text => .ok (unifyLineBreaks text)
  | none => .error .notUtf8

/-- The components of a path; empty ones and single dots do not count. -/
def pathComponents (path : String) : List String :=
  ((path.toList.splitOn '/').map String.ofList).filter fun component =>
    component != "" && component != "."

/-- A path without the components that do not count. -/
def normalizedPath (path : String) : String :=
  let beginning := if path.toList.head? = some '/' then "/" else ""
  let components := "/".intercalate (pathComponents path)
  if beginning.isEmpty && components.isEmpty then "." else beginning ++ components

/-- A directory: the bytes of its files under their paths. -/
structure Directory where
  files : List (List String × List Nat)
  /-- The paths of directories that need not hold a file. -/
  subdirectories : List (List String) := []
  /-- Whether the directory is its own parent. -/
  isRoot : Bool := false

namespace Directory

def greatestNameLength : Nat := 255

def greatestPathLength : Nat := 4095

/-- What is known of the root of the file system: the standard directories, and the device that
reads as an empty file. -/
def root : Directory where
  files := [(["dev", "null"], [])]
  subdirectories := [["bin"], ["boot"], ["etc"], ["home"], ["lib"], ["media"], ["mnt"], ["opt"],
    ["proc"], ["root"], ["run"], ["sbin"], ["srv"], ["sys"], ["tmp"], ["usr"], ["usr", "bin"],
    ["usr", "lib"], ["usr", "local"], ["usr", "share"], ["var"], ["var", "lib"], ["var", "log"],
    ["var", "tmp"]]
  isRoot := true

/-- The directory in which a working directory stands. -/
def parent : List String :=
  ["tmp"]

def holdsDirectory (directory : Directory) (path : List String) : Bool :=
  path.isEmpty || directory.subdirectories.contains path ||
    directory.files.any fun file => path.isPrefixOf file.1 && path != file.1

/-- Looks up a path, of which the components already passed lead to a directory. -/
def find (directory : Directory) (passed : List String) :
    List String → Except FileFault (List Nat)
  | [] => .error .isDirectory
  | component :: rest =>
    let path := passed ++ [component]
    if component = ".." then
      if passed.isEmpty && !directory.isRoot then root.find parent rest
      else directory.find passed.dropLast rest
    else if greatestNameLength < component.utf8ByteSize then .error .nameTooLong
    else
      match directory.files.lookup path with
      | some bytes => if rest.isEmpty then .ok bytes else .error .notADirectory
      | none =>
        if directory.holdsDirectory path then directory.find path rest
        else .error .missing

def read (directory : Directory) (path : String) : Except FileFault (List Char) :=
  if path.toList.contains (Char.ofNat 0) then .error .invalidName
  else if greatestPathLength < (normalizedPath path).utf8ByteSize then .error .nameTooLong
  else do
    let start := if path.toList.head? = some '/' then root else directory
    sourceOfBytes (← start.find [] (pathComponents path))

end Directory

end RubySyntax
