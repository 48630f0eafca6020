import EpochSplit.Disk.Store
import EpochSplit.Wire.Reader
/-!
# Disks as files

A disk is kept in plain files.  The file of a database is an image of its contents: a mark, then the
keys and values in the order of the keys, each together with its length.  Every other file holds its
own bytes.  A file that is no image is no database.
-/

namespace EpochSplit

namespace Contents

/-- The bytes that every image starts with. -/
def imageMark : Bytes := Bytes.ofText "keys and values\n"

/-- The image of contents. -/
def image (c : Contents) : Bytes :=
  imageMark ++ c.toList.flatMap fun e => Wire.writeDelimited e.1 ++ Wire.writeDelimited e.2

/-- Reads the pairs of an image.  The first argument bounds their number. -/
def readPairs? : Nat → Bytes → Option (List Entry)
  | _, [] => some []
  | 0, _ => none
  | steps + 1, input => do
      let (key, rest) ← (Wire.readDelimited input).toOption
      let (value, rest) ← (Wire.readDelimited rest).toOption
      return (key, value) :: (← readPairs? steps rest)

/-- The contents of which the bytes are an image, if they are one. -/
def ofImage? (bytes : Bytes) : Option Contents :=
  if imageMark.isPrefixOf bytes then
    (readPairs? bytes.length (bytes.drop imageMark.length)).map (overlay ∅)
  else none

end Contents

namespace Disk

/-- Adds what stands at a place: a directory, or a file with the given bytes. -/
def addNode (d : Disk) (p : Place) : Option Bytes → Disk
  | none => { d with tree := d.tree.put p .directory }
  | some bytes =>
      match Contents.ofImage? bytes with
      | some c => (d.addDatabase p (.ofContents c)).2
      | none => { d with tree := d.tree.put p (.file bytes) }

/-- The disk that consists of the given directories and files. -/
def ofNodes (nodes : List (Place × Option Bytes)) : Disk :=
  nodes.foldl (fun d n => d.addNode n.1 n.2) {}

/-- The files of a disk. -/
def files (d : Disk) : List (Place × Bytes) :=
  d.tree.nodes.toList.filterMap fun (p, n) =>
    match n with
    | .directory => none
    | .file bytes => some (p, bytes)
    | .database number => some (p, (d.contents number).image)

/-- The directories of a disk; a directory comes after those that it lies in. -/
def directories (d : Disk) : List Place :=
  d.tree.nodes.toList.filterMap fun (p, n) => if n = .directory then some p else none

/-- The places that a path comes by, and those of the files of a store at its end. -/
def concerned (path : String) : List Place :=
  let way := (Path.parts path).foldl (fun way part => Place.enter (way.headD []) part :: way)
    [Place.start path]
  way.reverse ++ [dataFile, compactedFile, lockFile].map fun f => way.headD [] ++ [f]

end Disk

end EpochSplit
