import EpochSplit.Bytes
import EpochSplit.Settings.Path
import Std.Data.ExtTreeMap
/-!
# Directory trees

Directories, files and databases by their place, and the way from a path to a place.  A path is
walked part by part, and each part but the last has to lead into a directory: `..` leads to the
directory above the one that was reached, and nowhere if nothing was reached.
-/

namespace EpochSplit

/-- Why an operation on a directory tree is refused. -/
inductive FileFault where
  | missing
  | badDescriptor
  | outOfMemory
  | alreadyThere
  | notDirectory
  | isDirectory
  | nameTooLong
  | notEmpty
  | nulInName
deriving DecidableEq

/-- The text of a fault, with its number if it has one. -/
def FileFault.message : FileFault → String
  | missing => "No such file or directory (os error 2)"
  | badDescriptor => "Bad file descriptor (os error 9)"
  | outOfMemory => "Cannot allocate memory (os error 12)"
  | alreadyThere => "File exists (os error 17)"
  | notDirectory => "Not a directory (os error 20)"
  | isDirectory => "Is a directory (os error 21)"
  | nameTooLong => "File name too long (os error 36)"
  | notEmpty => "Directory not empty (os error 39)"
  | nulInName => "file name contained an unexpected NUL byte"

/-- What stands at a place. -/
inductive FileNode where
  | directory
  | file (bytes : Bytes)
  /-- A database; its contents are kept under a number. -/
  | database (number : Nat)
deriving DecidableEq

/-- The names on the way to a place, from the starting directory or from the root `/`. -/
abbrev Place := List String

namespace Place

/-- Whether a place is the root, the starting directory or a directory above that.  These are always
there. -/
def isGiven (p : Place) : Bool := p == ["/"] || p.all (· == "..")

/-- The directory above a place.  The root lies in itself. -/
def above (p : Place) : Place :=
  if p = ["/"] then p else if isGiven p then p ++ [".."] else p.dropLast

/-- Where a part of a path leads from a directory. -/
def enter (p : Place) (part : String) : Place :=
  if part = "" ∨ part = "." then p else if part = ".." then above p else p ++ [part]

/-- The place where a path starts. -/
def start (path : String) : Place := if Path.isAbsolute path then ["/"] else []

end Place

/-- What stands at each place. -/
structure FileTree where
  nodes : Std.ExtTreeMap Place FileNode := ∅

namespace FileTree

/-- What stands at a place. -/
def node? (t : FileTree) (p : Place) : Option FileNode :=
  if Place.isGiven p then some .directory else t.nodes[p]?

/-- Whether anything stands at a place. -/
def has (t : FileTree) (p : Place) : Bool := (t.node? p).isSome

/-- Whether anything stands in the directory at a place. -/
def hasBelow (t : FileTree) (p : Place) : Bool :=
  t.nodes.keys.any fun q => p.isPrefixOf q && q != p

/-- Puts something at a place. -/
def put (t : FileTree) (p : Place) (n : FileNode) : FileTree := ⟨t.nodes.insert p n⟩

/-- What is put at a place is found there and nowhere else. -/
theorem node?_put (t : FileTree) (p q : Place) (n : FileNode) :
    (t.put p n).node? q =
      if Place.isGiven q then some .directory else if p = q then some n else t.node? q := by
  unfold node? put
  split
  · rfl
  · simp [Std.ExtTreeMap.getElem?_insert]

/-- Takes away what stands at a place. -/
def erase (t : FileTree) (p : Place) : FileTree := ⟨t.nodes.erase p⟩

/-- Moves what stands at a place or below it to another place. -/
def move (t : FileTree) (p q : Place) : FileTree :=
  let moved := t.nodes.toList.filter fun n => p.isPrefixOf n.1
  moved.foldl (fun t n => (t.erase n.1).put (q ++ n.1.drop p.length) n.2) t

/-! ### From paths to places -/

/-- The longest name, in bytes. -/
def nameLimit : Nat := 255

/-- A path of this many bytes is too long. -/
def pathLimit : Nat := 4096

/-- Goes from a place on along the parts of a path. -/
def walk (t : FileTree) (base : Place) : List String → Except FileFault Place
  | [] => if t.has base then .ok base else .error .missing
  | name :: rest =>
      match t.node? base with
      | none => .error .missing
      | some .directory =>
          if nameLimit < name.utf8ByteSize then .error .nameTooLong
          else t.walk (Place.enter base name) rest
      | some _ => .error .notDirectory

/-- The place that a path leads to, however long the path is. -/
def follow (t : FileTree) (path : String) : Except FileFault Place :=
  if path.toList.contains '\x00' then .error .nulInName
  else if path.isEmpty then .error .missing
  else t.walk (Place.start path) (Path.parts path)

/-- The place that a path leads to. -/
def find (t : FileTree) (path : String) : Except FileFault Place :=
  if pathLimit ≤ path.utf8ByteSize && !path.toList.contains '\x00' then .error .nameTooLong
  else t.follow path

/-- Whether a path leads anywhere. -/
def reaches (t : FileTree) (path : String) : Bool := (t.find path).toOption.isSome

/-- Whether a path leads to a directory. -/
def isDirectory (t : FileTree) (path : String) : Bool :=
  (t.find path).toOption.any fun p => t.node? p == some .directory

/-- The directory in which the last name of a path stands, and that name.  Slashes at the end do not
count. -/
def locate (t : FileTree) (path : String) : Except FileFault (Place × String) := do
  if path.toList.contains '\x00' then throw .nulInName
  if path.isEmpty then throw .missing
  if pathLimit ≤ path.utf8ByteSize then throw .nameTooLong
  let names := (Path.parts path).reverse.dropWhile (· == "")
  let dir ← t.walk (Place.start path) names.tail.reverse
  if t.node? dir ≠ some .directory then throw .notDirectory
  let name := names.headD "."
  if nameLimit < name.utf8ByteSize then throw .nameTooLong
  return (dir, name)

end FileTree

end EpochSplit
