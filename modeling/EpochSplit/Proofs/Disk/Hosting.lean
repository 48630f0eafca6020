import EpochSplit.Proofs.Disk.Opening
import EpochSplit.Proofs.Wire.Sizes
import Mathlib.Data.Nat.Digits.Defs
/-!
# The stores of epochs on a disk

The store of each epoch lies in a directory of its own below a common root, which is named by the
number of the epoch.  A disk that is ready for the stores of some epochs (`Hosts`) stays so when one
of them was visited: opened, perhaps written and compacted, and closed (`Hosts.visited`).
-/

namespace EpochSplit.Disk

/-! ### Names of epochs -/

lemma toList_toString (e : UInt32) : (toString e).toList = Nat.toDigits 10 e.toNat :=
  Nat.toList_repr

/-- The number of an epoch can be read back from its name. -/
lemma toString_inj {e e' : UInt32} (h : toString e = toString e') : e = e' := by
  have hdigits : Nat.toDigits 10 e.toNat = Nat.toDigits 10 e'.toNat := by
    rw [← toList_toString, h, toList_toString]
  have hvalue := congrArg (fun digits => Nat.ofDigitChars 10 digits 0) hdigits
  simp only [Nat.ofDigitChars_ten_toDigits] at hvalue
  exact UInt32.toNat_inj.1 hvalue

lemma isName_toString (e : UInt32) : Path.IsName (toString e) := by
  have hdigit : ∀ c ∈ (toString e).toList, c.isDigit = true := by
    intro c hc
    rw [toList_toString] at hc
    exact Nat.isDigit_of_mem_toDigits (by decide) (by decide) hc
  have hnone : ∀ {c : Char}, c.isDigit = false → c ∉ (toString e).toList := fun hc hmem => by
    rw [hdigit _ hmem] at hc
    cases hc
  have hother : ∀ {name : String}, name.toList.all Char.isDigit = false → toString e ≠ name := by
    rintro name hname rfl
    rw [List.all_eq_true.2 hdigit] at hname
    cases hname
  have hlength : (toString e).toList.length ≤ 10 := by
    rw [toList_toString]
    exact Nat.toDigits_length 10 _ 10 (by decide) (Nat.lt_trans e.toNat_lt (by decide))
  refine ⟨Nat.repr_ne_empty, hother (by decide), hother (by decide), hnone (by decide),
    hnone (by decide), ?_⟩
  have hsize := Bytes.size_utf8Encode_le (toString e).toList
  rw [String.utf8Encode_toList] at hsize
  calc (toString e).utf8ByteSize ≤ 4 * (toString e).toList.length := hsize
    _ ≤ FileTree.nameLimit := by rw [FileTree.nameLimit]; omega

/-- The path of the store of an epoch. -/
def homePath (root : String) (e : UInt32) : String := Path.join root (toString e)

/-- The directory of the store of an epoch. -/
def home (r : Place) (e : UInt32) : Place := r ++ [toString e]

variable {d d' : Disk} {p r : Place} {root path : String} {mapSize : Nat} {e e' : UInt32}

lemma home_inj (h : home r e = home r e') : e = e' := by
  obtain ⟨-, hname⟩ := List.append_inj' h rfl
  exact toString_inj (List.singleton_inj.1 hname)

/-- The store of an epoch does not lie in that of another. -/
lemma home_ne (r : Place) (e e' : UInt32) (name : String) : home r e' ≠ home r e ++ [name] := by
  intro h
  simpa [home] using congrArg List.length h

/-! ### Visits -/

/-- From one disk to another the store in a directory was visited: opened, and given back.  All
else is as it was. -/
structure Visited (path : String) (p : Place) (held : Contents) (d d' : Disk) : Prop where
  rests : Rests d' p path held
  beside : (d.made path).Beside p d'
  uncopied : d'.tree.node? (p ++ [compactedFile]) ≠ some .directory

/-- A disk that is ready for the stores of epochs below a root. -/
structure Hosts (d : Disk) (root : String) (r : Place) (epochs : List UInt32) : Prop where
  sound : d.Sound
  leads : d.tree.LeadsTo root r
  live : d.cancelled = false
  short : ∀ e ∈ epochs,
    (Path.join (homePath root e) compactedFile).utf8ByteSize < FileTree.pathLimit
  placed : ∀ e ∈ epochs,
    (Path.join (Path.ofComponents (home r e)) dataFile).utf8ByteSize < FileTree.pathLimit
  receptive : ∀ e ∈ epochs, d.Receptive (home r e)

namespace Hosts

variable {epochs : List UInt32}

lemma homePath_ne_empty (h : d.Hosts root r epochs) (e : UInt32) : homePath root e ≠ "" := by
  obtain ⟨-, hroot, -⟩ := FileTree.follow_eq_ok.1 h.leads.follow
  exact Path.join_ne_empty hroot (isName_toString e)

/-- The path of the database is shorter than that of its copy. -/
lemma short_data (h : d.Hosts root r epochs) (he : e ∈ epochs) :
    (Path.join (homePath root e) dataFile).utf8ByteSize < FileTree.pathLimit := by
  have hshort := h.short e he
  rw [Path.utf8ByteSize_join (h.homePath_ne_empty e) isName_compactedFile] at hshort
  rw [Path.utf8ByteSize_join (h.homePath_ne_empty e) isName_dataFile]
  exact Nat.lt_of_le_of_lt (Nat.add_le_add_left (by decide) _) hshort

lemma short_home (h : d.Hosts root r epochs) (he : e ∈ epochs) :
    (homePath root e).utf8ByteSize < FileTree.pathLimit := by
  have hshort := h.short e he
  rw [Path.utf8ByteSize_join (h.homePath_ne_empty e) isName_compactedFile] at hshort
  omega

/-- Making the directory of a store changes nothing else. -/
lemma node?_made (h : d.Hosts root r epochs) (he : e ∈ epochs) :
    (d.made (homePath root e)).tree.node? (home r e) = some .directory ∧
      ∀ q, q ≠ home r e → (d.made (homePath root e)).tree.node? q = d.tree.node? q := by
  obtain ⟨tree, hmade, hdir, hsame⟩ := FileTree.makeDirectories_join h.leads (isName_toString e)
    (h.short_home he) (h.receptive e he).vacant
  rw [made, homePath, hmade]
  exact ⟨hdir, hsame⟩

lemma keepsDirectories_made (h : d.Hosts root r epochs) (he : e ∈ epochs) :
    d.tree.KeepsDirectories (d.made (homePath root e)).tree := by
  obtain ⟨hdir, hsame⟩ := h.node?_made he
  intro q hq
  by_cases hplace : q = home r e
  · rw [hplace]
    exact hdir
  · rw [hsame q hplace]
    exact hq

/-- The store of an epoch is opened with what it held, unless its size cannot be addressed. -/
theorem create (h : d.Hosts root r epochs) (he : e ∈ epochs) (haligned : mapSize % pageSize = 0) :
    (∃ o d', d.create (homePath root e) mapSize = (.ok (home r e), d') ∧
      o.path = homePath root e ∧ Live d' (home r e) o (d.stored (home r e)) none ∧
        (d.made (homePath root e)).Beside (home r e) d') ∨
      (d.create (homePath root e) mapSize).1 =
        .error (.openFailed (homePath root e) FileFault.outOfMemory.message) := by
  obtain ⟨d', hcreate⟩ | hrefused := create_of_receptive h.leads (isName_toString e)
    (h.receptive e he) (h.short_home he) (h.placed e he) haligned
  · obtain ⟨o, ho, hlive, hbeside⟩ := Live.of_create h.sound (h.receptive e he).closed hcreate
    exact .inl ⟨o, d', hcreate, ho, hlive, hbeside⟩
  · exact .inr hrefused

/-- Nothing stands where the copy of a store goes, as long as the store is the only one that is
written. -/
lemma uncopied (h : d.Hosts root r epochs) (he : e ∈ epochs)
    (hbeside : (d.made (homePath root e)).Beside (home r e) d') :
    d'.tree.node? (home r e ++ [compactedFile]) ≠ some .directory := by
  obtain ⟨-, hsame⟩ := h.node?_made he
  intro hdir
  rw [hbeside.directories, hsame _ (by simp)] at hdir
  exact (h.receptive e he).uncopied hdir

/-- After a visit to the store of an epoch, the stores of others hold what they held. -/
lemma stored_visited (h : d.Hosts root r epochs) {c : Contents}
    (hvisit : Visited (homePath root e) (home r e) c d d') (hne : e' ≠ e) :
    d'.stored (home r e') = d.stored (home r e') := by
  rw [hvisit.beside.stored _ fun heq => hne (home_inj heq), stored_made h.sound]

/-- A visit to the store of an epoch leaves the disk ready. -/
theorem visited (h : d.Hosts root r epochs) (he : e ∈ epochs) {c : Contents}
    (hvisit : Visited (homePath root e) (home r e) c d d') : d'.Hosts root r epochs where
  sound := hvisit.rests.sound
  leads := (h.leads.mono (h.keepsDirectories_made he)).mono hvisit.beside.directories.keeps
  live := by rw [hvisit.beside.cancelled, cancelled_made, h.live]
  short := h.short
  placed := h.placed
  receptive e' he' := by
    obtain ⟨-, hsame⟩ := h.node?_made he
    by_cases hepoch : e' = e
    · subst hepoch
      exact ⟨hvisit.rests.closed, .inr hvisit.rests.leads.directory, .inr (.inr hvisit.rests.data),
        hvisit.rests.unlocked, hvisit.uncopied⟩
    · have hplace : home r e' ≠ home r e := fun heq => hepoch (home_inj heq)
      have hopened : d'.opened[home r e']? = d.opened[home r e']? := by
        rw [hvisit.beside.opened _ hplace, opened_made]
      refine (h.receptive e' he').congr hopened (.inl ?_) fun name => ?_
      · rw [hvisit.beside.node? _ (home_ne r e e'), hsame _ hplace]
      · have hfile : ∀ last, home r e' ++ [name] ≠ home r e ++ [last] := fun last heq =>
          hplace (List.append_inj' heq rfl).1
        rw [hvisit.beside.node? _ hfile, hsame _ (home_ne r e' e name).symm]

end Hosts

end EpochSplit.Disk
