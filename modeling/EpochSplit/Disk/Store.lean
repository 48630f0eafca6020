import EpochSplit.Disk.Change
import EpochSplit.Disk.Layout
import EpochSplit.Migrator
/-!
# Stores on disk

A store on disk is a directory that holds a database.  A database is written as a whole for each
batch; it holds keys of 1 to 511 bytes, and its pages are bounded in number.  A store can be
compacted: the copy is written beside the database and takes its place when the store is closed.

A store that was opened stays open until it is closed, and opening it again gives the same store,
provided that it is opened in the same way.  Which store that is depends on the place that the path
leads to and not on the path.
-/

namespace EpochSplit

/-- A database. -/
structure Database where
  contents : Contents := ∅
  layout : Layout := {}
  /-- The greatest size for which it was written, in bytes. -/
  mapSize : Nat := 0x100000

namespace Database

/-- The size that a database gets when it is opened for the given one.  It is never too small for
what is there, and none means the one for which the database was written. -/
def sizeFor (mapSize : Nat) (db : Database) : Nat :=
  max (if mapSize = 0 then db.mapSize else mapSize) (db.layout.next * pageSize)

/-- The pairs of a batch as the layout sees them. -/
def lengths (batch : List Entry) : List (Bytes × Nat) := batch.map fun e => (e.1, e.2.length)

/-- A database that is written at once. -/
def ofContents (c : Contents) : Database :=
  let pages := c.toList.foldl (fun n e => n + KeyNode.pagesFor e.2.length + 4) 8
  { contents := c, layout := (Layout.write? pages (lengths c.toList) {}).getD {} }

/-- Whether a key has a length that a database can hold. -/
def isKey (key : Bytes) : Bool := 1 ≤ key.length && key.length ≤ 511

/-- The reason why a key is refused. -/
def badKey : String :=
  "MDB_BAD_VALSIZE: Unsupported size of key/DB name/data, or wrong DUPFIXED size"

/-- The reason why a batch is refused for which there is no room. -/
def noRoom : String := "MDB_MAP_FULL: Environment mapsize limit reached"

/-- The database after a batch.  Its pairs are written one after the other, and the first that
cannot be written is the reason for which the batch is refused. -/
def write (size : Nat) (batch : List Entry) (db : Database) : Except String Database :=
  let good := batch.takeWhile fun e => isKey e.1
  match db.layout.write? (size / pageSize) (lengths good) with
  | none => .error noRoom
  | some layout =>
      if good.length < batch.length then .error badKey
      else
        .ok { contents := db.contents.overlay batch, layout, mapSize := max db.mapSize size }

/-- The pairs of a batch that is accepted are all written. -/
theorem contents_write {size : Nat} {batch : List Entry} {db db' : Database}
    (h : db.write size batch = .ok db') : db'.contents = db.contents.overlay batch := by
  unfold write at h
  simp only at h
  split at h
  · cases h
  · split at h
    · cases h
    · cases h
      rfl

/-- The copy that keeps only the pages in use. -/
def packed (size : Nat) (db : Database) : Database :=
  { contents := db.contents, layout := db.layout.packed, mapSize := size }

end Database

/-- A store that is open. -/
structure OpenStore where
  /-- The path under which it was opened. -/
  path : String
  /-- The number of the database. -/
  number : Nat
  readOnly : Bool
  /-- The size that was asked for, in bytes. -/
  mapSize : Nat
  /-- The bound on the size of the database, in bytes. -/
  size : Nat
  /-- Whether a compacted copy is to take the place of the database. -/
  compacted : Bool := false
deriving DecidableEq

/-- Directories with the stores in them. -/
structure Disk where
  tree : FileTree := {}
  /-- The databases by number. -/
  databases : Std.ExtTreeMap Nat Database := ∅
  /-- The stores that are open, by place. -/
  opened : Std.ExtTreeMap Place OpenStore := ∅
  /-- Whether the run is to stop. -/
  cancelled : Bool := false
  /-- The time in milliseconds. -/
  clock : Nat := 0

namespace Disk

/-! ### Files of a store -/

/-- The file of the database in the directory of a store. -/
def dataFile : String := "data.mdb"

/-- The file of the compacted copy. -/
def compactedFile : String := "data.mdb.compacted"

/-- The file that keeps the users of a store apart. -/
def lockFile : String := "lock.mdb"

/-- What the lock file holds. -/
def lockMark : Bytes := [0xde, 0xc0, 0xef, 0xbe]

/-- The database with a number. -/
def database (d : Disk) (number : Nat) : Database := d.databases[number]?.getD {}

/-- The contents of a database. -/
def contents (d : Disk) (number : Nat) : Contents := (d.database number).contents

/-- Adds a database at a place and says under which number. -/
def addDatabase (d : Disk) (p : Place) (db : Database) : Nat × Disk :=
  let number := (d.databases.keys.getLast?.map (· + 1)).getD 0
  (number,
    { d with
      tree := d.tree.put p (.database number)
      databases := d.databases.insert number db })

/-- Notes that a store is in use.  A directory in the place of the lock file is refused. -/
def lock (d : Disk) (p : Place) : Except FileFault Disk :=
  let file := p ++ [lockFile]
  if d.tree.node? file = some .directory then .error .isDirectory
  else .ok { d with tree := d.tree.put file (.file lockMark) }

/-- Puts a store with the given contents into a directory, which is made if it is not there. -/
def withStore (path : String) (c : Contents) (d : Disk) : Except FileFault Disk := do
  let (made, tree) := d.tree.makeDirectories path
  made
  let p ← tree.follow path
  return ((← { d with tree }.lock p).addDatabase (p ++ [dataFile]) (.ofContents c)).2

/-! ### Opening -/

/-- The reason why a file is no text. -/
def notText : String := "stream did not contain valid UTF-8"

/-- The reason why a file is no database. -/
def notDatabase : String := "MDB_INVALID: File is not an LMDB file"

/-- Finds the database of a store and opens it.  A database is made where there is none or an empty
file, unless the store is opened for reading only. -/
def openDatabase (p : Place) (readOnly : Bool) (mapSize : Nat) (d : Disk) :
    Except String Nat × Disk :=
  let file := p ++ [dataFile]
  let make (fault : FileFault) : Except String Nat × Disk :=
    if readOnly then (.error fault.message, d)
    else
      let (number, d) := d.addDatabase file { mapSize := Database.sizeFor mapSize {} }
      (.ok number, d)
  match d.tree.node? file with
  | some (.database number) => (.ok number, d)
  | some .directory => (.error FileFault.isDirectory.message, d)
  | some (.file (_ :: _)) => (.error notDatabase, d)
  | some (.file []) => make .badDescriptor
  | none => make .missing

/-- A bound on the size of a database is refused from here on, as so much cannot be addressed. -/
def addressLimit : Nat := 0x600000000000

/-- Opens the store in a directory that is not open yet. -/
def openFresh (p : Place) (path : String) (readOnly : Bool) (mapSize : Nat) (d : Disk) :
    Except String Place × Disk :=
  let refuse (fault : FileFault) := (Except.error fault.message, d)
  if mapSize % pageSize ≠ 0 then
    (.error s!"map size ({mapSize}) must be a multiple of the system page size ({pageSize})", d)
  else if FileTree.pathLimit ≤ (Path.join (Path.ofComponents p) dataFile).utf8ByteSize then
    refuse .nameTooLong
  else if d.tree.node? p ≠ some .directory then refuse .notDirectory
  else if readOnly && !d.tree.has (p ++ [dataFile]) then refuse .missing
  else
    match d.lock p with
    | .error fault => refuse fault
    | .ok d =>
        match d.openDatabase p readOnly mapSize with
        | (.error reason, d) => (.error reason, d)
        | (.ok number, d) =>
            let size := (d.database number).sizeFor mapSize
            if addressLimit ≤ size then (.error FileFault.outOfMemory.message, d)
            else
              let o := { path, number, readOnly, mapSize, size }
              (.ok p, { d with opened := d.opened.insert p o })

/-- Opens the store in a directory and says where that is.  A store that is open already is shared,
but a compacted copy made before has no effect any more. -/
def openStore (path : String) (readOnly : Bool) (mapSize : Nat) (d : Disk) :
    Except StoreFault Place × Disk :=
  let (r, d) : Except String Place × Disk := match d.tree.follow path with
    | .error fault => (.error fault.message, d)
    | .ok p =>
        match d.opened[p]? with
        | none => d.openFresh p path readOnly mapSize
        | some o =>
            if o.readOnly = readOnly ∧ o.mapSize = mapSize then
              (.ok p, { d with opened := d.opened.insert p { o with path, compacted := false } })
            else (.error "an environment is already opened with different options", d)
  (r.mapError (.openFailed path), d)

/-- Opens a store that is there already, for reading only. -/
def openReadOnly (path : String) (mapSize : Nat) (d : Disk) : Except StoreFault Place × Disk :=
  d.openStore path true mapSize

/-- Opens a store for writing; its directory is made if it is not there. -/
def create (path : String) (mapSize : Nat) (d : Disk) : Except StoreFault Place × Disk :=
  match d.tree.makeDirectories path with
  | (.error fault, tree) => (.error (.openFailed path fault.message), { d with tree })
  | (.ok (), tree) => { d with tree }.openStore path false mapSize

/-! ### Reading -/

/-- What the open store at a place holds. -/
def held (d : Disk) (p : Place) : Contents :=
  (d.opened[p]?.map fun o => d.contents o.number).getD ∅

/-- The value under a key.  The empty key is refused. -/
def get (d : Disk) (p : Place) (key : Bytes) : Except StoreFault (Option Bytes) :=
  if key.isEmpty then .error (.read Database.badKey) else .ok (d.held p)[key]?

/-- The pairs whose key lies in a range.  A range from the empty key on is refused, unless it is
empty. -/
def scan (d : Disk) (p : Place) (r : KeyRange) : Except StoreFault (List Entry) :=
  r.ask (.ok []) fun lower upper h =>
    if lower.isEmpty then .error (.iteration Database.badKey)
    else .ok ((d.held p).between lower upper h)

/-- The open store at a place, as one that is read. -/
def source (p : Place) (d : Disk) : Source where
  get := d.get p
  scan := d.scan p

/-! ### Writing -/

/-- Writes a batch into the open store at a place. -/
def commit (p : Place) (batch : List Entry) (d : Disk) : Except StoreFault Unit × Disk :=
  let refuse (reason : String) := (Except.error (StoreFault.commit batch.length reason), d)
  match d.opened[p]? with
  | none => refuse FileFault.badDescriptor.message
  | some o =>
      if o.readOnly then refuse "store is read-only"
      else
        match (d.database o.number).write o.size batch with
        | .error reason => refuse reason
        | .ok db => (.ok (), { d with databases := d.databases.insert o.number db })

/-- Writes a compacted copy beside the database of the open store at a place.  An earlier copy is
removed first. -/
def compact (p : Place) (d : Disk) : Except StoreFault Unit × Disk :=
  match d.opened[p]? with
  | none => (.error (.compaction FileFault.badDescriptor.message), d)
  | some o =>
      let file := Path.join o.path compactedFile
      let cleared := if d.tree.reaches file then d.tree.removeFile file else .ok d.tree
      match cleared with
      | .error fault => (.error (.compaction fault.message), d)
      | .ok tree =>
          match tree.placeForFile file with
          | .error fault => (.error (.compaction fault.message), { d with tree })
          | .ok q =>
              let (_, d) := { d with tree }.addDatabase q ((d.database o.number).packed o.size)
              (.ok (), { d with opened := d.opened.insert p { o with compacted := true } })

/-- Closes the open store at a place.  A compacted copy takes the place of the database; a copy that
an earlier run left behind is removed. -/
def close (p : Place) (d : Disk) : Except StoreFault Unit × Disk :=
  match d.opened[p]? with
  | none => (.ok (), d)
  | some o =>
      let d := { d with opened := d.opened.erase p }
      let copy := Path.join o.path compactedFile
      let settle (doing : String) : Except FileFault FileTree → Except StoreFault Unit × Disk
        | .ok tree => (.ok (), { d with tree })
        | .error fault => (.error (.close s!"{doing}: {fault.message}"), d)
      if o.compacted then
        settle "swapping in compacted copy" (d.tree.rename copy (Path.join o.path dataFile))
      else if !o.readOnly && d.tree.reaches copy then
        settle "removing stale compacted copy" (d.tree.removeFile copy)
      else (.ok (), d)

/-- The open store at a place, as one that is written.  A batch is on the disk once it is
committed. -/
def target (p : Place) : Target Disk where
  commit _ := commit p
  compact := compact p
  close := close p

/-! ### Runs -/

/-- How a migrator reaches the stores: the archive is open at a place, and the store of an epoch is
opened below a path, under the number of the epoch. -/
def site (archive : Place) (targetPath : String) (mapSize : Nat) : Site Disk where
  source := source archive
  openEpoch epoch d :=
    let (r, d) := d.create (Path.join targetPath (toString epoch)) mapSize
    (r.map target, d)
  cancelled d := d.cancelled
  now d := d.clock

/-- Reads a text file. -/
def readText (d : Disk) (path : String) : Except String String := do
  let p ← (d.tree.find path).mapError FileFault.message
  match d.tree.node? p with
  | none => throw FileFault.missing.message
  | some .directory => throw FileFault.isDirectory.message
  | some (.file bytes) =>
      match Bytes.toText? bytes with
      | some text => return text
      | none => throw notText
  | some (.database _) => throw notText

end Disk

end EpochSplit
