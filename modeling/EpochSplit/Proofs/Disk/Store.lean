import EpochSplit.Disk.Store
import EpochSplit.Proofs.Disk.Tree
/-!
# A store between opening and closing

What the calls to an open store leave on the disk.  The store has a live database, which commits
write, and once it was compacted a copy, which holds what the database held at that moment and which
closing puts in its place (`Live`).  Beside its own directory a store changes nothing (`Beside`).
-/

namespace EpochSplit

namespace Disk

variable {d d' : Disk} {p q : Place} {n k : Nat} {batch : List Entry}

/-! ### The files of a store -/

lemma isName_dataFile : Path.IsName dataFile := by
  constructor <;> decide

lemma isName_compactedFile : Path.IsName compactedFile := by
  constructor <;> decide

lemma isName_lockFile : Path.IsName lockFile := by
  constructor <;> decide

/-- The database in a directory, an empty one if there is none. -/
def databaseAt (d : Disk) (p : Place) : Database :=
  match d.tree.node? (p ++ [dataFile]) with
  | some (.database n) => d.database n
  | _ => {}

/-- What the database in a directory holds. -/
def stored (d : Disk) (p : Place) : Contents := (d.databaseAt p).contents

lemma stored_of_database (h : d.tree.node? (p ++ [dataFile]) = some (.database n)) :
    d.stored p = d.contents n := by
  rw [stored, databaseAt, h, contents]

/-- Without a database nothing is stored. -/
lemma stored_of_none (h : ∀ n, d.tree.node? (p ++ [dataFile]) ≠ some (.database n)) :
    d.stored p = ∅ := by
  rw [stored, databaseAt]
  split
  · next n hn => exact absurd hn (h n)
  · rfl

/-- What is stored depends on the file of the database and on the database. -/
lemma stored_congr (hnode : d'.tree.node? (p ++ [dataFile]) = d.tree.node? (p ++ [dataFile]))
    (hcontents : ∀ n, d.tree.node? (p ++ [dataFile]) = some (.database n) →
      d'.contents n = d.contents n) : d'.stored p = d.stored p := by
  by_cases hdata : ∃ n, d.tree.node? (p ++ [dataFile]) = some (.database n)
  · obtain ⟨n, hn⟩ := hdata
    rw [stored_of_database hn, stored_of_database (hnode.trans hn), hcontents n hn]
  · have hnone : d.stored p = ∅ := stored_of_none fun n hn => hdata ⟨n, hn⟩
    rw [hnone, stored_of_none fun n hn => hdata ⟨n, hnode.symm.trans hn⟩]

/-- A disk without loose ends: the databases in its tree are there, each at one place. -/
structure Sound (d : Disk) : Prop where
  nested : d.tree.Nested
  listed : ∀ {p n}, d.tree.node? p = some (.database n) → n ∈ d.databases
  single : ∀ {p q n}, d.tree.node? p = some (.database n) → d.tree.node? q = some (.database n) →
    p = q

lemma sound_empty : Sound {} := by
  have hnone : ∀ {p n}, ({} : FileTree).node? p ≠ some (.database n) := by
    intro p n h
    rw [FileTree.node?] at h
    split at h
    · cases h
    · simp at h
  exact ⟨FileTree.nested_empty, fun h => absurd h hnone, fun h => absurd h hnone⟩

/-- Changes to a store: beside its directory all is as it was. -/
structure Beside (p : Place) (d d' : Disk) : Prop where
  node? : ∀ q, (∀ name, q ≠ p ++ [name]) → d'.tree.node? q = d.tree.node? q
  directories : d.tree.SameDirectories d'.tree
  stored : ∀ q, q ≠ p → d'.stored q = d.stored q
  opened : ∀ q, q ≠ p → d'.opened[q]? = d.opened[q]?
  cancelled : d'.cancelled = d.cancelled
  clock : d'.clock = d.clock

namespace Beside

lemma refl (p : Place) (d : Disk) : Beside p d d :=
  ⟨fun _ _ => rfl, fun _ => .rfl, fun _ _ => rfl, fun _ _ => rfl, rfl, rfl⟩

lemma trans {d'' : Disk} (h : Beside p d d') (h' : Beside p d' d'') : Beside p d d'' where
  node? q hq := (h'.node? q hq).trans (h.node? q hq)
  directories q := (h'.directories q).trans (h.directories q)
  stored q hq := (h'.stored q hq).trans (h.stored q hq)
  opened q hq := (h'.opened q hq).trans (h.opened q hq)
  cancelled := h'.cancelled.trans h.cancelled
  clock := h'.clock.trans h.clock

lemma opened_insert (p : Place) (d : Disk) (o : OpenStore) :
    Beside p d { d with opened := d.opened.insert p o } where
  node? _ _ := rfl
  directories _ := .rfl
  stored _ _ := rfl
  opened _ hq := (Std.ExtTreeMap.getElem?_insert).trans <|
    if_neg fun heq => hq (Std.LawfulEqOrd.eq_of_compare heq).symm
  cancelled := rfl
  clock := rfl

end Beside

/-- Stores in other directories have other files. -/
lemma dataFile_ne (hq : q ≠ p) (name : String) : q ++ [dataFile] ≠ p ++ [name] := by
  intro heq
  obtain ⟨hsame, -⟩ := List.append_inj' heq rfl
  exact hq hsame

/-! ### Databases -/

/-- The number that the next database gets. -/
def nextNumber (d : Disk) : Nat := (d.databases.keys.getLast?.map (· + 1)).getD 0

lemma lt_nextNumber (h : n ∈ d.databases) : n < d.nextNumber := by
  have hkey : n ∈ d.databases.keys := Std.ExtTreeMap.mem_keys.2 h
  rw [nextNumber]
  cases hlast : d.databases.keys.getLast? with
  | none =>
      rw [List.getLast?_eq_none_iff.1 hlast] at hkey
      cases hkey
  | some greatest =>
      -- keys are in ascending order
      obtain ⟨front, hfront⟩ := List.getLast?_eq_some_iff.1 hlast
      have hordered := Std.ExtTreeMap.ordered_keys (t := d.databases)
      rw [hfront, List.pairwise_append] at hordered
      rw [hfront] at hkey
      obtain hbefore | hsame := List.mem_append.1 hkey
      · have hlt := hordered.2.2 n hbefore greatest (List.mem_singleton_self greatest)
        exact Nat.lt_succ_of_lt (Nat.compare_eq_lt.1 hlt)
      · rw [List.mem_singleton.1 hsame]
        exact Nat.lt_succ_self greatest

lemma contents_insert (d : Disk) (n k : Nat) (db : Database) :
    Disk.contents { d with databases := d.databases.insert n db } k =
      if n = k then db.contents else d.contents k := by
  rw [contents, database, contents, database, Std.ExtTreeMap.getElem?_insert]
  by_cases hnk : n = k
  · simp [hnk]
  · simp [hnk]

lemma contents_addDatabase (d : Disk) (p : Place) (db : Database) (k : Nat) :
    (d.addDatabase p db).2.contents k =
      if d.nextNumber = k then db.contents else d.contents k :=
  contents_insert d d.nextNumber k db

/-- A new database leaves those that are there as they are. -/
lemma Sound.contents_addDatabase (h : d.Sound) (hn : d.tree.node? q = some (.database n))
    (p : Place) (db : Database) : (d.addDatabase p db).2.contents n = d.contents n := by
  rw [Disk.contents_addDatabase, if_neg (Nat.ne_of_gt (lt_nextNumber (h.listed hn)))]

lemma Sound.beside_addDatabase (h : d.Sound) {name : String}
    (hfree : d.tree.node? (p ++ [name]) ≠ some .directory) (db : Database) :
    d.Beside p (d.addDatabase (p ++ [name]) db).2 where
  node? _ hq := FileTree.node?_put_of_beside hq
  directories := FileTree.sameDirectories_put (by simp) hfree
  stored q hq := by
    refine stored_congr ?_ fun n hn => h.contents_addDatabase hn _ _
    exact (FileTree.node?_put_of_name isName_dataFile).trans (if_neg (dataFile_ne hq name).symm)
  opened _ _ := rfl
  cancelled := rfl
  clock := rfl

/-- The disk with a new database under a name in a directory. -/
lemma Sound.addDatabase (h : d.Sound) {name : String} (hdir : d.tree.node? p = some .directory)
    (hfree : d.tree.node? (p ++ [name]) ≠ some .directory) (db : Database) :
    (d.addDatabase (p ++ [name]) db).2.Sound := by
  have hfresh : ∀ {q}, d.tree.node? q ≠ some (.database d.nextNumber) := fun hq =>
    Nat.lt_irrefl _ (lt_nextNumber (h.listed hq))
  have hput : ∀ {q n}, (d.tree.put (p ++ [name]) (.database d.nextNumber)).node? q =
      some (.database n) →
      (q = p ++ [name] ∧ n = d.nextNumber) ∨ d.tree.node? q = some (.database n) := by
    intro q n hq
    obtain ⟨rfl, hn⟩ | hq := FileTree.database_of_put hq
    · cases hn
      exact .inl ⟨rfl, rfl⟩
    · exact .inr hq
  refine ⟨h.nested.put hdir (.inr hfree), ?_, ?_⟩
  · intro q n hq
    obtain ⟨-, rfl⟩ | hq := hput hq
    · exact Std.ExtTreeMap.mem_insert_self
    · exact Std.ExtTreeMap.mem_insert.2 (.inr (h.listed hq))
  · intro q q' n hq hq'
    obtain ⟨rfl, rfl⟩ | hq := hput hq
    · obtain ⟨rfl, -⟩ | hq' := hput hq'
      · rfl
      · exact absurd hq' hfresh
    · obtain ⟨rfl, rfl⟩ | hq' := hput hq'
      · exact absurd hq hfresh
      · exact h.single hq hq'

lemma Sound.erase (h : d.Sound) (hleaf : d.tree.node? p ≠ some .directory) :
    Sound { d with tree := d.tree.erase p } where
  nested := h.nested.erase hleaf
  listed hq := h.listed (FileTree.database_of_erase hq).2
  single hq hq' :=
    h.single (FileTree.database_of_erase hq).2 (FileTree.database_of_erase hq').2

/-- The disk with a database moved over a file in the same directory. -/
lemma Sound.rename (h : d.Sound) {name newName : String} (hnewName : Path.IsName newName)
    (hdir : d.tree.node? p = some .directory)
    (hk : d.tree.node? (p ++ [name]) = some (.database k))
    (hfree : d.tree.node? (p ++ [newName]) ≠ some .directory) :
    Sound { d with
      tree := (d.tree.erase (p ++ [name])).put (p ++ [newName]) (.database k) } := by
  have hleaf : d.tree.node? (p ++ [name]) ≠ some .directory := by
    rw [hk]
    simp
  have hwas : ∀ {q n},
      ((d.tree.erase (p ++ [name])).put (p ++ [newName]) (.database k)).node? q =
        some (.database n) →
      (q = p ++ [newName] ∧ n = k) ∨ (q ≠ p ++ [name] ∧ d.tree.node? q = some (.database n)) := by
    intro q n hq
    obtain ⟨rfl, hn⟩ | hq := FileTree.database_of_put hq
    · cases hn
      exact .inl ⟨rfl, rfl⟩
    · exact .inr (FileTree.database_of_erase hq)
  refine ⟨?_, ?_, ?_⟩
  · refine (h.nested.erase hleaf).put (FileTree.keepsDirectories_erase hleaf p hdir) (.inr ?_)
    rw [FileTree.node?_erase_of_name hnewName]
    split
    · simp
    · exact hfree
  · intro q n hq
    obtain ⟨rfl, rfl⟩ | ⟨-, hq⟩ := hwas hq
    · exact h.listed hk
    · exact h.listed hq
  · -- the number of the database is found at its new place only
    intro q q' n hq hq'
    obtain ⟨rfl, rfl⟩ | ⟨hne, hold⟩ := hwas hq
    · obtain ⟨rfl, -⟩ | ⟨hne', hold'⟩ := hwas hq'
      · rfl
      · exact absurd (h.single hold' hk) hne'
    · obtain ⟨rfl, rfl⟩ | ⟨-, hold'⟩ := hwas hq'
      · exact absurd (h.single hold hk) hne
      · exact h.single hold hold'

/-! ### An open store -/

/-- A store that is open for writing at `p` holds `live`, and if it was compacted, the copy that is
to take the place of its database holds `saved`. -/
structure Live (d : Disk) (p : Place) (o : OpenStore) (live : Contents)
    (saved : Option Contents) : Prop where
  sound : d.Sound
  opened : d.opened[p]? = some { o with compacted := saved.isSome }
  writable : o.readOnly = false
  leads : d.tree.LeadsTo o.path p
  short : (Path.join (Path.ofComponents p) dataFile).utf8ByteSize < FileTree.pathLimit
  data : d.tree.node? (p ++ [dataFile]) = some (.database o.number)
  unlocked : d.tree.node? (p ++ [lockFile]) ≠ some .directory
  live : d.contents o.number = live
  saved : ∀ {c}, saved = some c → ∃ k, k ≠ o.number ∧
    d.tree.node? (p ++ [compactedFile]) = some (.database k) ∧ d.contents k = c

variable {o : OpenStore} {live : Contents} {saved : Option Contents}

lemma Live.held (h : Live d p o live saved) : d.held p = live := by
  rw [Disk.held, h.opened]
  exact h.live

lemma Live.stored (h : Live d p o live saved) : d.stored p = live := by
  rw [stored_of_database h.data, h.live]

/-! ### Committing -/

/-- A batch is written if the database takes it. -/
lemma Live.commit_eq (h : Live d p o live saved) (batch : List Entry) :
    d.commit p batch =
      match (d.database o.number).write o.size batch with
      | .error reason => (.error (.commit batch.length reason), d)
      | .ok db => (.ok (), { d with databases := d.databases.insert o.number db }) := by
  cases hwrite : (d.database o.number).write o.size batch <;>
    simp only [commit, h.opened, h.writable, hwrite, Bool.false_eq_true, if_false]

theorem Live.commit (h : Live d p o live saved) (hcommit : d.commit p batch = (.ok (), d')) :
    Live d' p o (live.overlay batch) saved ∧ d.Beside p d' := by
  rw [h.commit_eq] at hcommit
  split at hcommit
  · cases hcommit
  next db hwrite =>
    cases hcommit
    have hcontents := fun k => contents_insert d o.number k db
    refine ⟨⟨⟨h.sound.nested, fun hq => ?_, h.sound.single⟩, h.opened, h.writable, h.leads, h.short,
      h.data, h.unlocked, ?_, fun hsaved => ?_⟩, ⟨fun _ _ => rfl, fun _ => .rfl, fun q hq => ?_,
      fun _ _ => rfl, rfl, rfl⟩⟩
    · exact Std.ExtTreeMap.mem_insert.2 (.inr (h.sound.listed hq))
    · rw [hcontents, if_pos rfl, Database.contents_write hwrite]
      exact congrArg (Contents.overlay · batch) h.live
    · obtain ⟨k, hk, hcopy, hsame⟩ := h.saved hsaved
      exact ⟨k, hk, hcopy, by rw [hcontents, if_neg (Ne.symm hk), hsame]⟩
    · -- the database of another store has another number
      refine stored_congr rfl fun n hn => ?_
      have hother : o.number ≠ n := by
        rintro rfl
        exact dataFile_ne hq _ (h.sound.single hn h.data)
      rw [hcontents, if_neg hother]

/-! ### Compacting -/

/-- The disk with a compacted copy beside the database of a store. -/
def copied (p : Place) (o : OpenStore) (d : Disk) : Disk :=
  let added := (d.addDatabase (p ++ [compactedFile]) ((d.database o.number).packed o.size)).2
  { added with opened := added.opened.insert p { o with compacted := true } }

/-- A copy is made unless a directory stands in its place, or its path is too long. -/
lemma Live.compact_eq_ok (h : Live d p o live saved) :
    d.compact p = (.ok (), d') ↔
      (Path.join o.path compactedFile).utf8ByteSize < FileTree.pathLimit ∧
        d.tree.node? (p ++ [compactedFile]) ≠ some .directory ∧ d' = d.copied p o := by
  simp only [compact, h.opened]
  constructor
  · intro hcompact
    split at hcompact
    · cases hcompact
    next tree hcleared =>
      obtain ⟨hshort, hfree, rfl⟩ | ⟨hlong, rfl⟩ :=
        (FileTree.clear_eq_ok h.leads isName_compactedFile).1 hcleared
      · have hleads := h.leads.mono (FileTree.keepsDirectories_erase hfree)
        split at hcompact
        · cases hcompact
        next r hplace =>
          obtain ⟨-, -, rfl⟩ := (FileTree.placeForFile_eq_ok hleads isName_compactedFile).1 hplace
          cases hcompact
          refine ⟨hshort, hfree, ?_⟩
          simp only [copied, addDatabase, FileTree.put_erase, database]
      · split at hcompact
        · cases hcompact
        next r hplace =>
          obtain ⟨hshort, -, -⟩ :=
            (FileTree.placeForFile_eq_ok h.leads isName_compactedFile).1 hplace
          exact absurd hshort (Nat.not_lt.2 hlong)
  · rintro ⟨hshort, hfree, rfl⟩
    have hleads := h.leads.mono (FileTree.keepsDirectories_erase hfree)
    have hcleared := (FileTree.clear_eq_ok h.leads isName_compactedFile).2
      (.inl ⟨hshort, hfree, rfl⟩)
    have hplace := (FileTree.placeForFile_eq_ok hleads isName_compactedFile).2
      ⟨hshort, by simp [FileTree.node?_erase_of_name isName_compactedFile], rfl⟩
    rw [hcleared]
    simp only [hplace, copied, addDatabase, FileTree.put_erase, database]

theorem Live.compact (h : Live d p o live saved) (hcompact : d.compact p = (.ok (), d')) :
    Live d' p o live (some live) ∧ d.Beside p d' := by
  obtain ⟨-, hfree, rfl⟩ := h.compact_eq_ok.1 hcompact
  have hnode : ∀ q, (d.copied p o).tree.node? q =
      (d.tree.put (p ++ [compactedFile]) (.database d.nextNumber)).node? q := fun _ => rfl
  refine ⟨{
    sound := ?_
    opened := Std.ExtTreeMap.getElem?_insert_self
    writable := h.writable
    leads := h.leads.mono (FileTree.keepsDirectories_put (.inr hfree))
    short := h.short
    data := ?_
    unlocked := ?_
    live := (h.sound.contents_addDatabase h.data (p ++ [compactedFile]) _).trans h.live
    saved := ?_ }, ?_⟩
  · have hsound := h.sound.addDatabase h.leads.directory hfree
      ((d.database o.number).packed o.size)
    exact ⟨hsound.nested, hsound.listed, hsound.single⟩
  · rw [hnode, FileTree.node?_put_of_name isName_dataFile, if_neg (by simp; decide), h.data]
  · rw [hnode, FileTree.node?_put_of_name isName_lockFile, if_neg (by simp; decide)]
    exact h.unlocked
  · rintro _ ⟨⟩
    refine ⟨d.nextNumber, Nat.ne_of_gt (lt_nextNumber (h.sound.listed h.data)), ?_, ?_⟩
    · rw [hnode, FileTree.node?_put_of_name isName_compactedFile, if_pos rfl]
    · refine (contents_addDatabase d (p ++ [compactedFile]) _ d.nextNumber).trans ?_
      rw [if_pos rfl]
      exact h.live
  · exact (h.sound.beside_addDatabase hfree _).trans (.opened_insert p _ _)

/-! ### Closing -/

/-- A store that is not open holds `held` in the directory that `path` leads to. -/
structure Rests (d : Disk) (p : Place) (path : String) (held : Contents) : Prop where
  sound : d.Sound
  closed : d.opened[p]? = none
  leads : d.tree.LeadsTo path p
  short : (Path.join (Path.ofComponents p) dataFile).utf8ByteSize < FileTree.pathLimit
  data : ∃ n, d.tree.node? (p ++ [dataFile]) = some (.database n)
  unlocked : d.tree.node? (p ++ [lockFile]) ≠ some .directory
  stored : d.stored p = held

/-- The disk once a store is given back, with its tree as it is then. -/
def released (d : Disk) (p : Place) (tree : FileTree) : Disk :=
  { d with tree, opened := d.opened.erase p }

lemma getElem?_opened_released (d : Disk) (p q : Place) (tree : FileTree) :
    (d.released p tree).opened[q]? = if p = q then none else d.opened[q]? := by
  rw [released, Std.ExtTreeMap.getElem?_erase]
  by_cases hpq : p = q
  · simp [hpq]
  · rw [if_neg fun heq => hpq (Std.LawfulEqOrd.eq_of_compare heq), if_neg hpq]

/-- Only the files of a store change when it is given back. -/
lemma beside_released {tree : FileTree}
    (hnode : ∀ q, (∀ name, q ≠ p ++ [name]) → tree.node? q = d.tree.node? q)
    (hdirs : d.tree.SameDirectories tree)
    (hstored : ∀ q, q ≠ p → tree.node? (q ++ [dataFile]) = d.tree.node? (q ++ [dataFile])) :
    d.Beside p (d.released p tree) where
  node? := hnode
  directories := hdirs
  stored q hq := stored_congr (hstored q hq) fun _ _ => rfl
  opened q hq := by rw [getElem?_opened_released, if_neg (Ne.symm hq)]
  cancelled := rfl
  clock := rfl

/-- A store that was not compacted is given back, and a copy beside it is removed. -/
lemma Live.close_eq_ok_of_none (h : Live d p o live none) :
    d.close p = (.ok (), d') ↔
      ((Path.join o.path compactedFile).utf8ByteSize < FileTree.pathLimit ∧
          d.tree.node? (p ++ [compactedFile]) ≠ some .directory ∧
          d' = d.released p (d.tree.erase (p ++ [compactedFile]))) ∨
        FileTree.pathLimit ≤ (Path.join o.path compactedFile).utf8ByteSize ∧
          d' = d.released p d.tree := by
  have hclose : d.close p = (.ok (), d') ↔
      ∃ tree, (if d.tree.reaches (Path.join o.path compactedFile) then
        d.tree.removeFile (Path.join o.path compactedFile) else .ok d.tree) = .ok tree ∧
          d' = d.released p tree := by
    simp only [close, h.opened, h.writable, Bool.not_false, Bool.true_and, Option.isSome_none,
      Bool.false_eq_true, if_false]
    split
    · cases d.tree.removeFile (Path.join o.path compactedFile) with
      | error fault => simp
      | ok tree => simp [released, eq_comm]
    · simp [released, eq_comm]
  rw [hclose]
  constructor
  · rintro ⟨tree, hcleared, rfl⟩
    obtain ⟨hshort, hfree, rfl⟩ | ⟨hlong, rfl⟩ :=
      (FileTree.clear_eq_ok h.leads isName_compactedFile).1 hcleared
    · exact .inl ⟨hshort, hfree, rfl⟩
    · exact .inr ⟨hlong, rfl⟩
  · rintro (⟨hshort, hfree, rfl⟩ | ⟨hlong, rfl⟩)
    · exact ⟨_, (FileTree.clear_eq_ok h.leads isName_compactedFile).2
        (.inl ⟨hshort, hfree, rfl⟩), rfl⟩
    · exact ⟨_, (FileTree.clear_eq_ok h.leads isName_compactedFile).2 (.inr ⟨hlong, rfl⟩), rfl⟩

/-- The copy of a store that was compacted takes the place of its database. -/
lemma Live.close_eq_ok_of_some {c : Contents} (h : Live d p o live (some c)) {k : Nat}
    (hcopy : d.tree.node? (p ++ [compactedFile]) = some (.database k)) :
    d.close p = (.ok (), d') ↔
      (Path.join o.path compactedFile).utf8ByteSize < FileTree.pathLimit ∧
        (Path.join o.path dataFile).utf8ByteSize < FileTree.pathLimit ∧
          d' = d.released p
            ((d.tree.erase (p ++ [compactedFile])).put (p ++ [dataFile]) (.database k)) := by
  have hmove := FileTree.move_eq (q := p ++ [dataFile]) h.sound.nested
    (FileTree.not_isGiven_concat isName_compactedFile p) hcopy (by simp)
  have hrename : ∀ {tree}, d.tree.rename (Path.join o.path compactedFile)
      (Path.join o.path dataFile) = .ok tree ↔ _ :=
    FileTree.rename_eq_ok h.leads isName_compactedFile isName_dataFile hcopy (by simp)
      (by rw [h.data]; simp)
  rw [hmove] at hrename
  simp only [close, h.opened, Option.isSome_some, if_true]
  cases hresult : d.tree.rename (Path.join o.path compactedFile) (Path.join o.path dataFile) with
  | error fault =>
      simp only [Prod.mk.injEq, reduceCtorEq, false_and, false_iff]
      rintro ⟨hshort, hshort', -⟩
      rw [hrename.2 ⟨hshort, hshort', rfl⟩] at hresult
      cases hresult
  | ok tree =>
      obtain ⟨hshort, hshort', rfl⟩ := hrename.1 hresult
      simp [released, hshort, hshort', eq_comm]

/-- A store that was not compacted rests with what its database holds. -/
lemma Live.rests_of_none (h : Live d p o live none) (hclose : d.close p = (.ok (), d')) :
    Rests d' p o.path live ∧ d.Beside p d' := by
  obtain ⟨hshort, hfree, rfl⟩ | ⟨-, rfl⟩ := h.close_eq_ok_of_none.1 hclose
  · have hsound := h.sound.erase hfree
    have hkept : ∀ q {name}, Path.IsName name → compactedFile ≠ name →
        (d.tree.erase (p ++ [compactedFile])).node? (q ++ [name]) = d.tree.node? (q ++ [name]) :=
      fun q name hname hne => by
        rw [FileTree.node?_erase_of_name hname, if_neg (FileTree.concat_ne_concat hne p q)]
    have hdata := fun q => hkept q isName_dataFile (by decide)
    refine ⟨⟨⟨hsound.nested, hsound.listed, hsound.single⟩, ?_,
      h.leads.mono (FileTree.keepsDirectories_erase hfree), h.short,
      ⟨o.number, (hdata p).trans h.data⟩, ?_, ?_⟩,
      beside_released (fun q hq => FileTree.node?_erase_of_beside hq)
        (FileTree.sameDirectories_erase hfree) fun q _ => hdata q⟩
    · rw [getElem?_opened_released, if_pos rfl]
    · exact fun hdir => h.unlocked ((hkept p isName_lockFile (by decide)).symm.trans hdir)
    · rw [← h.stored]
      exact stored_congr (hdata p) fun _ _ => rfl
  · refine ⟨⟨⟨h.sound.nested, h.sound.listed, h.sound.single⟩, ?_, h.leads, h.short,
      ⟨_, h.data⟩, h.unlocked, h.stored⟩,
      beside_released (fun _ _ => rfl) (fun _ => .rfl) fun _ _ => rfl⟩
    rw [getElem?_opened_released, if_pos rfl]

/-- A store that was compacted rests with what the copy holds. -/
lemma Live.rests_of_some {c : Contents} (h : Live d p o live (some c))
    (hclose : d.close p = (.ok (), d')) : Rests d' p o.path c ∧ d.Beside p d' := by
  obtain ⟨k, -, hcopy, hsaved⟩ := h.saved rfl
  obtain ⟨-, -, rfl⟩ := (h.close_eq_ok_of_some hcopy).1 hclose
  have hleaf : d.tree.node? (p ++ [compactedFile]) ≠ some .directory := by
    rw [hcopy]
    simp
  have hfree : d.tree.node? (p ++ [dataFile]) ≠ some .directory := by
    rw [h.data]
    simp
  have hsound := h.sound.rename isName_dataFile h.leads.directory hcopy hfree
  have hkept : ∀ q {name}, Path.IsName name → compactedFile ≠ name → p ++ [dataFile] ≠ q ++ [name] →
      ((d.tree.erase (p ++ [compactedFile])).put (p ++ [dataFile]) (.database k)).node?
        (q ++ [name]) = d.tree.node? (q ++ [name]) := fun q name hname hne hplace => by
    rw [FileTree.node?_put_of_name hname, if_neg hplace, FileTree.node?_erase_of_name hname,
      if_neg (FileTree.concat_ne_concat hne p q)]
  have hdata : (d.released p ((d.tree.erase (p ++ [compactedFile])).put (p ++ [dataFile])
      (.database k))).tree.node? (p ++ [dataFile]) = some (.database k) :=
    (FileTree.node?_put_of_name isName_dataFile).trans (if_pos rfl)
  refine ⟨⟨⟨hsound.nested, hsound.listed, hsound.single⟩, ?_, ?_, h.short, ⟨k, hdata⟩, ?_, ?_⟩,
    beside_released (fun q hq => ?_) (fun q => ?_) fun q hq => ?_⟩
  · rw [getElem?_opened_released, if_pos rfl]
  · refine (h.leads.mono (FileTree.keepsDirectories_erase hleaf)).mono
      (FileTree.keepsDirectories_put (.inr ?_))
    rw [FileTree.node?_erase_of_name isName_dataFile,
      if_neg (FileTree.concat_ne_concat (by decide) p p)]
    exact hfree
  · exact fun hdir => h.unlocked ((hkept p isName_lockFile (by decide)
      (FileTree.concat_ne_concat (by decide) p p)).symm.trans hdir)
  · rw [stored_of_database hdata]
    exact hsaved
  · rw [FileTree.node?_put_of_beside hq, FileTree.node?_erase_of_beside hq]
  · refine (FileTree.sameDirectories_put (by simp) ?_ q).trans
      (FileTree.sameDirectories_erase hleaf q)
    exact fun hdir => hfree ((FileTree.sameDirectories_erase hleaf _).1 hdir)
  · exact hkept q isName_dataFile (by decide) (dataFile_ne hq dataFile).symm

/-- A store can be closed if its paths are not too long and no directory stands where its copy
goes. -/
lemma Live.exists_close (h : Live d p o live saved)
    (hcopy : (Path.join o.path compactedFile).utf8ByteSize < FileTree.pathLimit)
    (hdata : (Path.join o.path dataFile).utf8ByteSize < FileTree.pathLimit)
    (hfree : d.tree.node? (p ++ [compactedFile]) ≠ some .directory) :
    ∃ d', d.close p = (.ok (), d') := by
  cases saved with
  | none => exact ⟨_, h.close_eq_ok_of_none.2 (.inl ⟨hcopy, hfree, rfl⟩)⟩
  | some c =>
      obtain ⟨k, -, hk, -⟩ := h.saved rfl
      exact ⟨_, (h.close_eq_ok_of_some hk).2 ⟨hcopy, hdata, rfl⟩⟩

/-- A store that is closed rests with what the copy holds if it was compacted, and else with what
its database holds. -/
theorem Live.close (h : Live d p o live saved) (hclose : d.close p = (.ok (), d')) :
    Rests d' p o.path (saved.getD live) ∧ d.Beside p d' := by
  cases saved with
  | none => exact h.rests_of_none hclose
  | some c => exact h.rests_of_some hclose

end Disk

end EpochSplit
