import EpochSplit.Proofs.Disk.Store
/-!
# Opening a store

A store that is opened for writing holds what its directory held before (`Live.of_create`), and one
that rests in a directory is found there again (`Rests.openReadOnly`).
-/

namespace EpochSplit.Disk

variable {d d' : Disk} {p r : Place} {path : String} {readOnly : Bool} {mapSize number : Nat}

/-! ### The lock -/

/-- The disk with the lock file of a store. -/
def locked (p : Place) (d : Disk) : Disk :=
  { d with tree := d.tree.put (p ++ [lockFile]) (.file lockMark) }

lemma lock_eq_ok :
    d.lock p = .ok d' ↔ d.tree.node? (p ++ [lockFile]) ≠ some .directory ∧ d' = d.locked p := by
  rw [lock]
  split
  · next hdir => simp [hdir]
  · next hfree => simp [hfree, locked, eq_comm]

lemma Sound.locked (h : d.Sound) (hdir : d.tree.node? p = some .directory)
    (hfree : d.tree.node? (p ++ [lockFile]) ≠ some .directory) : (d.locked p).Sound := by
  have hwas : ∀ {q n}, (d.locked p).tree.node? q = some (.database n) →
      d.tree.node? q = some (.database n) := by
    intro q n hq
    obtain ⟨-, hmark⟩ | hq := FileTree.database_of_put hq
    · cases hmark
    · exact hq
  exact ⟨h.nested.put hdir (.inr hfree), fun hq => h.listed (hwas hq),
    fun hq hq' => h.single (hwas hq) (hwas hq')⟩

lemma node?_locked {name : String} (hname : Path.IsName name) (hne : lockFile ≠ name)
    (d : Disk) (p q : Place) :
    (d.locked p).tree.node? (q ++ [name]) = d.tree.node? (q ++ [name]) := by
  rw [locked, FileTree.node?_put_of_name hname, if_neg (FileTree.concat_ne_concat hne p q)]

/-- The lock file takes part in no database. -/
lemma stored_locked (d : Disk) (p q : Place) : (d.locked p).stored q = d.stored q :=
  stored_congr (node?_locked isName_dataFile (by decide) d p q) fun _ _ => rfl

lemma beside_locked (hfree : d.tree.node? (p ++ [lockFile]) ≠ some .directory) :
    d.Beside p (d.locked p) :=
  ⟨fun _ hq => FileTree.node?_put_of_beside hq,
    FileTree.sameDirectories_put (by simp) hfree, fun q _ => stored_locked d p q, fun _ _ => rfl,
    rfl, rfl⟩

/-! ### The database -/

lemma openDatabase_eq_ok (h : d.openDatabase p readOnly mapSize = (.ok number, d')) :
    (d.tree.node? (p ++ [dataFile]) = some (.database number) ∧ d' = d) ∨
      readOnly = false ∧ (∀ n, d.tree.node? (p ++ [dataFile]) ≠ some (.database n)) ∧
        d.tree.node? (p ++ [dataFile]) ≠ some .directory ∧ ∃ db : Database, db.contents = ∅ ∧
          number = d.nextNumber ∧ d' = (d.addDatabase (p ++ [dataFile]) db).2 := by
  -- a database that is not there is made, unless it is to be read only
  have hmake : ∀ {fault : FileFault} {added : Nat × Disk},
      added = d.addDatabase (p ++ [dataFile]) { mapSize := Database.sizeFor mapSize {} } →
      (if readOnly then (.error fault.message, d) else (.ok added.1, added.2)) =
        ((.ok number, d') : Except String Nat × Disk) →
      readOnly = false ∧ ∃ db : Database, db.contents = ∅ ∧
        number = d.nextNumber ∧ d' = (d.addDatabase (p ++ [dataFile]) db).2 := by
    rintro fault added rfl hmake
    cases readOnly with
    | true => cases hmake
    | false =>
        cases hmake
        exact ⟨rfl, _, rfl, rfl, rfl⟩
  unfold openDatabase at h
  simp only at h
  split at h
  · next n hn =>
      cases h
      exact .inl ⟨hn, rfl⟩
  · cases h
  · cases h
  · next hempty =>
      obtain ⟨hwritable, hadded⟩ := hmake rfl h
      exact .inr ⟨hwritable, by simp [hempty], by simp [hempty], hadded⟩
  · next hnone =>
      obtain ⟨hwritable, hadded⟩ := hmake rfl h
      exact .inr ⟨hwritable, by simp [hnone], by simp [hnone], hadded⟩

/-- A store whose directory is there is opened from its database. -/
lemma openFresh_eq_ok (h : d.openFresh p path readOnly mapSize = (.ok r, d')) :
    r = p ∧ (Path.join (Path.ofComponents p) dataFile).utf8ByteSize < FileTree.pathLimit ∧
      d.tree.node? p = some .directory ∧ d.tree.node? (p ++ [lockFile]) ≠ some .directory ∧
      ∃ number d₁ size, (d.locked p).openDatabase p readOnly mapSize = (.ok number, d₁) ∧
        d' = { d₁ with
          opened := d₁.opened.insert p { path, number, readOnly, mapSize, size } } := by
  unfold openFresh at h
  simp only at h
  split at h
  · cases h
  split at h
  · cases h
  next hshort =>
    split at h
    · cases h
    next hdir =>
      split at h
      · cases h
      split at h
      · cases h
      next d₀ hlock =>
        obtain ⟨hfree, rfl⟩ := lock_eq_ok.1 hlock
        split at h
        · cases h
        next number d₁ hdatabase =>
          split at h
          · cases h
          · cases h
            exact ⟨rfl, Nat.lt_of_not_le hshort, Classical.not_not.1 hdir, hfree, number, d₁, _,
              hdatabase, rfl⟩

/-- A store that was not open is opened where its path leads to. -/
lemma openStore_eq_ok (hclosed : d.opened[p]? = none)
    (h : d.openStore path readOnly mapSize = (.ok p, d')) :
    d.tree.follow path = .ok p ∧ d.openFresh p path readOnly mapSize = (.ok p, d') := by
  unfold openStore at h
  split at h
  next r d₁ hresult =>
    split at hresult
    · cases hresult
      cases h
    next q hfollow =>
      split at hresult
      · next hfree =>
          have hr : r = .ok p ∧ d₁ = d' := by
            cases r with
            | error reason => cases h
            | ok place =>
                cases h
                exact ⟨rfl, rfl⟩
          obtain ⟨rfl, rfl⟩ := hr
          obtain ⟨rfl, -⟩ := openFresh_eq_ok hresult
          exact ⟨hfollow, hresult⟩
      · next o ho =>
          split at hresult
          · cases hresult
            cases h
            rw [hclosed] at ho
            cases ho
          · cases hresult
            cases h

/-- A store that is opened for writing holds what its directory held. -/
theorem Live.of_openStore (hsound : d.Sound) (hclosed : d.opened[p]? = none)
    (hopen : d.openStore path false mapSize = (.ok p, d')) :
    ∃ o, o.path = path ∧ Live d' p o (d.stored p) none ∧ d.Beside p d' := by
  obtain ⟨hfollow, hfresh⟩ := openStore_eq_ok hclosed hopen
  obtain ⟨-, hshort, hdir, hfree, number, d₁, size, hdatabase, rfl⟩ := openFresh_eq_ok hfresh
  have hlocked := hsound.locked hdir hfree
  have hleads : (d.locked p).tree.LeadsTo path p :=
    FileTree.LeadsTo.mono ⟨hfollow, hdir⟩ (FileTree.keepsDirectories_put (.inr hfree))
  have hmark : (d.locked p).tree.node? (p ++ [lockFile]) = some (.file lockMark) :=
    (FileTree.node?_put_of_name isName_lockFile).trans (if_pos rfl)
  refine ⟨{ path, number, readOnly := false, mapSize, size }, rfl, ?_⟩
  obtain ⟨hdata, rfl⟩ | ⟨-, hnone, hplain, db, hempty, rfl, rfl⟩ :=
    openDatabase_eq_ok hdatabase
  · refine ⟨⟨⟨hlocked.nested, hlocked.listed, hlocked.single⟩, ?_, rfl, hleads, hshort, hdata, ?_,
      ?_, ?_⟩, (beside_locked hfree).trans (.opened_insert p _ _)⟩
    · exact Std.ExtTreeMap.getElem?_insert_self
    · simp [hmark]
    · rw [← stored_locked d p p, stored_of_database hdata]
      rfl
    · rintro _ ⟨⟩
  · -- there is no database yet, so that nothing is stored
    have hstored : d.stored p = ∅ := by
      rw [← stored_locked d p p]
      exact stored_of_none hnone
    have hadd := hlocked.addDatabase hleads.directory hplain db
    refine ⟨⟨⟨hadd.nested, hadd.listed, hadd.single⟩, ?_, rfl,
      hleads.mono (FileTree.keepsDirectories_put (.inr hplain)), hshort, ?_, ?_, ?_, ?_⟩,
      ((beside_locked hfree).trans (hlocked.beside_addDatabase hplain db)).trans
        (.opened_insert p _ _)⟩
    · exact Std.ExtTreeMap.getElem?_insert_self
    · exact (FileTree.node?_put_of_name isName_dataFile).trans (if_pos rfl)
    · have hother : ((d.locked p).addDatabase (p ++ [dataFile]) db).2.tree.node?
          (p ++ [lockFile]) = some (.file lockMark) := by
        refine (FileTree.node?_put_of_name isName_lockFile).trans ((if_neg ?_).trans hmark)
        exact FileTree.concat_ne_concat (by decide) p p
      exact fun hdir => nomatch hother.symm.trans hdir
    · rw [hstored, ← hempty]
      exact (contents_addDatabase (d.locked p) (p ++ [dataFile]) db _).trans (if_pos rfl)
    · rintro _ ⟨⟩

/-! ### Making its directory -/

/-- The disk with directories made. -/
def made (d : Disk) (path : String) : Disk :=
  { d with tree := (d.tree.makeDirectories path).2 }

@[simp] lemma opened_made (d : Disk) (path : String) : (d.made path).opened = d.opened := rfl

@[simp] lemma cancelled_made (d : Disk) (path : String) :
    (d.made path).cancelled = d.cancelled := rfl

lemma create_eq_ok (h : d.create path mapSize = (.ok p, d')) :
    (d.made path).openStore path false mapSize = (.ok p, d') := by
  unfold create at h
  rcases hmake : d.tree.makeDirectories path with ⟨fault | ⟨⟩, tree⟩
  · rw [hmake] at h
    cases h
  · rw [hmake] at h
    simpa only [made, hmake] using h

/-- Directories change nothing about databases. -/
lemma node?_database_of_grows {t t' : FileTree} (h : t.Grows t') {n : Nat} :
    t'.node? p = some (.database n) ↔ t.node? p = some (.database n) := by
  obtain hsame | ⟨hnone, hdir⟩ := h p
  · rw [hsame]
  · rw [hnone, hdir]
    simp

lemma Sound.grown (h : d.Sound) {tree : FileTree} (hgrown : d.tree.Grows tree ∧ tree.Nested) :
    Sound { d with tree } := by
  obtain ⟨hgrows, hnested⟩ := hgrown
  exact ⟨hnested, fun hq => h.listed ((node?_database_of_grows hgrows).1 hq),
    fun hq hq' => h.single ((node?_database_of_grows hgrows).1 hq)
      ((node?_database_of_grows hgrows).1 hq')⟩

lemma Sound.made (h : d.Sound) (path : String) : (d.made path).Sound :=
  h.grown (FileTree.makeDirectories_grows h.nested path)

lemma stored_of_grows {tree : FileTree} (h : d.tree.Grows tree) (p : Place) :
    Disk.stored { d with tree } p = d.stored p := by
  by_cases hdata : ∃ n, d.tree.node? (p ++ [dataFile]) = some (.database n)
  · obtain ⟨n, hn⟩ := hdata
    have hgrown : ({ d with tree } : Disk).tree.node? (p ++ [dataFile]) = some (.database n) :=
      (node?_database_of_grows h).2 hn
    rw [stored_of_database hn, stored_of_database hgrown]
    rfl
  · have hnone : d.stored p = ∅ := stored_of_none fun n hn => hdata ⟨n, hn⟩
    rw [hnone]
    exact stored_of_none fun n hn => hdata ⟨n, (node?_database_of_grows h).1 hn⟩

lemma stored_made (h : d.Sound) (path : String) (p : Place) :
    (d.made path).stored p = d.stored p :=
  stored_of_grows (FileTree.makeDirectories_grows h.nested path).1 p

/-- Where the directory above it is missing, a store is created as it is once that is made. -/
lemma create_of_missing {root name : String} {tree : FileTree}
    (hmissing : d.tree.follow root = .error .missing)
    (hmade : d.tree.makeFirst (Path.lineage root) = (.ok (), tree)) (h : tree.LeadsTo root r)
    (hname : Path.IsName name) (hshort : (Path.join root name).utf8ByteSize < FileTree.pathLimit)
    (mapSize : Nat) :
    d.create (Path.join root name) mapSize =
      ({ d with tree } : Disk).create (Path.join root name) mapSize := by
  simp only [create, FileTree.makeDirectories_join_of_missing hmissing hmade h hname hshort]

/-- A store that is created holds what its directory held. -/
theorem Live.of_create (hsound : d.Sound) (hclosed : d.opened[p]? = none)
    (hcreate : d.create path mapSize = (.ok p, d')) :
    ∃ o, o.path = path ∧ Live d' p o (d.stored p) none ∧ (d.made path).Beside p d' := by
  have hopen := create_eq_ok hcreate
  have hmade : (d.made path).opened[p]? = none := by rw [opened_made, hclosed]
  rw [← stored_made hsound path]
  exact Live.of_openStore (hsound.made path) hmade hopen

/-! ### Where a store can be created -/

/-- A place at which a store can be created and compacted: no other file stands in the way of its
own. -/
structure Receptive (d : Disk) (p : Place) : Prop where
  closed : d.opened[p]? = none
  vacant : d.tree.node? p = none ∨ d.tree.node? p = some .directory
  data : d.tree.node? (p ++ [dataFile]) = none ∨ d.tree.node? (p ++ [dataFile]) = some (.file []) ∨
    ∃ n, d.tree.node? (p ++ [dataFile]) = some (.database n)
  unlocked : d.tree.node? (p ++ [lockFile]) ≠ some .directory
  uncopied : d.tree.node? (p ++ [compactedFile]) ≠ some .directory

lemma Receptive.congr (h : d.Receptive p) (hopened : d'.opened[p]? = d.opened[p]?)
    (hplace : d'.tree.node? p = d.tree.node? p ∨ d'.tree.node? p = some .directory)
    (hfiles : ∀ name, d'.tree.node? (p ++ [name]) = d.tree.node? (p ++ [name])) :
    d'.Receptive p where
  closed := hopened.trans h.closed
  vacant := by
    obtain hsame | hdir := hplace
    · rw [hsame]
      exact h.vacant
    · exact .inr hdir
  data := by
    rw [hfiles]
    exact h.data
  unlocked := by
    rw [hfiles]
    exact h.unlocked
  uncopied := by
    rw [hfiles]
    exact h.uncopied

/-- A store is opened in a directory that is there, unless its size cannot be addressed. -/
lemma openFresh_of_receptive (h : d.Receptive p) (hdir : d.tree.node? p = some .directory)
    (hshort : (Path.join (Path.ofComponents p) dataFile).utf8ByteSize < FileTree.pathLimit)
    (haligned : mapSize % pageSize = 0) :
    (∃ d', d.openFresh p path false mapSize = (.ok p, d')) ∨
      (d.openFresh p path false mapSize).1 = .error FileFault.outOfMemory.message := by
  have hnode : (d.locked p).tree.node? (p ++ [dataFile]) = d.tree.node? (p ++ [dataFile]) :=
    node?_locked isName_dataFile (by decide) d p p
  have hdatabase : ∃ number d₁, (d.locked p).openDatabase p false mapSize = (.ok number, d₁) := by
    obtain hnone | hempty | ⟨n, hn⟩ := h.data
    · simp only [openDatabase, hnode, hnone]
      exact ⟨_, _, rfl⟩
    · simp only [openDatabase, hnode, hempty]
      exact ⟨_, _, rfl⟩
    · simp only [openDatabase, hnode, hn]
      exact ⟨_, _, rfl⟩
  obtain ⟨number, d₁, hdatabase⟩ := hdatabase
  simp only [openFresh, haligned, Nat.not_le.2 hshort, hdir, lock_eq_ok.2 ⟨h.unlocked, rfl⟩,
    hdatabase, ne_eq, not_true_eq_false, Bool.false_and, Bool.false_eq_true, if_false]
  split
  · exact .inr rfl
  · exact .inl ⟨_, rfl⟩

lemma openStore_of_receptive (h : d.Receptive p) (hleads : d.tree.LeadsTo path p)
    (hshort : (Path.join (Path.ofComponents p) dataFile).utf8ByteSize < FileTree.pathLimit)
    (haligned : mapSize % pageSize = 0) :
    (∃ d', d.openStore path false mapSize = (.ok p, d')) ∨
      (d.openStore path false mapSize).1 =
        .error (.openFailed path FileFault.outOfMemory.message) := by
  simp only [openStore, hleads.follow, h.closed]
  obtain ⟨d', hfresh⟩ | hrefused :
      (∃ d', d.openFresh p path false mapSize = (.ok p, d')) ∨ _ :=
    openFresh_of_receptive h hleads.directory hshort haligned
  · rw [hfresh]
    exact .inl ⟨d', rfl⟩
  · rw [hrefused]
    exact .inr rfl

/-- A store is created under a name in a directory that is there, unless its size cannot be
addressed. -/
theorem create_of_receptive {root name : String} (hroot : d.tree.LeadsTo root r)
    (hname : Path.IsName name) (h : d.Receptive (r ++ [name]))
    (hpath : (Path.join root name).utf8ByteSize < FileTree.pathLimit)
    (hshort : (Path.join (Path.ofComponents (r ++ [name])) dataFile).utf8ByteSize <
      FileTree.pathLimit)
    (haligned : mapSize % pageSize = 0) :
    (∃ d', d.create (Path.join root name) mapSize = (.ok (r ++ [name]), d')) ∨
      (d.create (Path.join root name) mapSize).1 =
        .error (.openFailed (Path.join root name) FileFault.outOfMemory.message) := by
  obtain ⟨made, hmade, hdir, hsame⟩ := FileTree.makeDirectories_join hroot hname hpath h.vacant
  have hkeeps : d.tree.KeepsDirectories made := by
    intro q hq
    by_cases hplace : q = r ++ [name]
    · rw [hplace]
      exact hdir
    · rw [hsame q hplace]
      exact hq
  have hleads : made.LeadsTo (Path.join root name) (r ++ [name]) :=
    ⟨(FileTree.follow_join_eq_ok (hroot.mono hkeeps) hname).2
      ⟨FileTree.has_of_node? hdir, rfl⟩, hdir⟩
  have hreceptive : ({ d with tree := made } : Disk).Receptive (r ++ [name]) :=
    h.congr rfl (.inr hdir) fun last => hsame _ (by simp)
  simp only [create, hmade]
  exact openStore_of_receptive hreceptive hleads hshort haligned

/-! ### Opening it again -/

/-- A store that rests in a directory can be opened for reading, if its size can be addressed, and
shows what it holds. -/
theorem Rests.openReadOnly {c : Contents} (h : d.Rests p path c)
    (haligned : mapSize % pageSize = 0)
    (haddressed : (d.databaseAt p).sizeFor mapSize < addressLimit) :
    ∃ d', d.openReadOnly path mapSize = (.ok p, d') ∧ d'.held p = c := by
  obtain ⟨n, hdata⟩ := h.data
  have hlocked : (d.locked p).tree.node? (p ++ [dataFile]) = some (.database n) :=
    (node?_locked isName_dataFile (by decide) d p p).trans hdata
  have hdatabase : (d.locked p).openDatabase p true mapSize = (.ok n, d.locked p) := by
    simp only [openDatabase, hlocked]
  have hsize : ¬addressLimit ≤ ((d.locked p).database n).sizeFor mapSize := by
    rw [databaseAt, hdata] at haddressed
    exact Nat.not_le.2 haddressed
  have hthere : d.tree.has (p ++ [dataFile]) = true := FileTree.has_of_node? hdata
  refine ⟨{ d.locked p with
    opened := (d.locked p).opened.insert p
      { path, number := n, readOnly := true, mapSize
        size := ((d.locked p).database n).sizeFor mapSize } }, ?_, ?_⟩
  · simp only [Disk.openReadOnly, openStore, h.leads.follow, h.closed, openFresh, haligned,
      Nat.not_le.2 h.short, h.leads.directory, hthere, lock_eq_ok.2 ⟨h.unlocked, rfl⟩, hdatabase,
      hsize]
    rfl
  · rw [← h.stored, stored_of_database hdata, held]
    simp only [Std.ExtTreeMap.getElem?_insert_self]
    rfl

end EpochSplit.Disk
