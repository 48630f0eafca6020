import EpochSplit.Disk.Tree
/-!
# Changing directory trees

Directories are made, and files written, removed and renamed, under a path.  A change that is
refused leaves the tree as it is, except that of several directories to be made some may be there
already.
-/

namespace EpochSplit.FileTree

/-- Whether a name stands for a directory by itself. -/
def isDotted (name : String) : Bool := name == "." || name == ".."

/-- Makes a directory in one that is there. -/
def makeDirectory (t : FileTree) (path : String) : Except FileFault FileTree := do
  let (dir, name) ← t.locate path
  if isDotted name || t.has (dir ++ [name]) then throw .alreadyThere
  return t.put (dir ++ [name]) .directory

/-- Makes the first of the given directories, and those that follow as far as it needs them.  A
directory that is there already is no fault. -/
def makeFirst (t : FileTree) : List String → Except FileFault Unit × FileTree
  | [] => (.ok (), t)
  | path :: above =>
      let settle (t : FileTree) : Except FileFault FileTree → Except FileFault Unit × FileTree
        | .ok made => (.ok (), made)
        | .error fault => (if t.isDirectory path then .ok () else .error fault, t)
      match t.makeDirectory path with
      | .error .missing =>
          match t.makeFirst above with
          | (.ok (), t) => settle t (t.makeDirectory path)
          | refused => refused
      | made => settle t made

/-- Makes a directory and those that it lies in. -/
def makeDirectories (t : FileTree) (path : String) : Except FileFault Unit × FileTree :=
  t.makeFirst (Path.ancestry path)

/-- The place at which a file can be written under a path. -/
def placeForFile (t : FileTree) (path : String) : Except FileFault Place := do
  let (dir, name) ← t.locate path
  let p := dir ++ [name]
  if isDotted name || Path.endsInSlash path || t.node? p == some .directory then throw .isDirectory
  return p

/-- Writes a file in place of what the file held before. -/
def writeFile (t : FileTree) (path : String) (bytes : Bytes) : Except FileFault FileTree := do
  return t.put (← t.placeForFile path) (.file bytes)

/-- Removes a file. -/
def removeFile (t : FileTree) (path : String) : Except FileFault FileTree := do
  let (dir, name) ← t.locate path
  if isDotted name then throw .isDirectory
  match t.node? (dir ++ [name]) with
  | none => throw .missing
  | some .directory => throw .isDirectory
  | some _ =>
      if Path.endsInSlash path then throw .notDirectory
      return t.erase (dir ++ [name])

/-- Gives a file or a directory another path.  A file takes the place of a file, and a directory
that of a directory with nothing in it. -/
def rename (t : FileTree) (path newPath : String) : Except FileFault FileTree := do
  let (dir, name) ← t.locate path
  let (newDir, newName) ← t.locate newPath
  let p := dir ++ [name]
  let q := newDir ++ [newName]
  match t.node? p, t.node? q with
  | none, _ => throw .missing
  | some .directory, some .directory =>
      if t.hasBelow q then throw .notEmpty
      return t.move p q
  | some .directory, some _ => throw .notDirectory
  | some _, some .directory => throw .isDirectory
  | some _, _ => return t.move p q

end EpochSplit.FileTree
