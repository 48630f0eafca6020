import EpochSplit.Proofs.Disk.Paths
import Mathlib.Data.List.Induction
import Std.Data.ExtTreeMap.Lemmas
/-!
# Trees and their changes

What stands where after something was put, erased or moved, and after directories were made.  In a
tree without loose ends (`Nested`) a file or a database is moved alone, since nothing can lie
below it.
-/

namespace EpochSplit.FileTree

variable {t t' : FileTree} {p q : Place} {n : FileNode} {name path : String}

/-! ### Places -/

lemma not_isGiven_concat (hname : Path.IsName name) (p : Place) :
    Place.isGiven (p ++ [name]) = false := by
  have hroot : p ++ [name] ≠ ["/"] := by
    intro heq
    have hslash : name = "/" := by simpa using congrArg List.getLast? heq
    exact hname.noSlash (by rw [hslash]; decide)
  simp [Place.isGiven, hroot, hname.noDots]

lemma node?_put_of_name (hname : Path.IsName name) :
    (t.put q n).node? (p ++ [name]) =
      if q = p ++ [name] then some n else t.node? (p ++ [name]) := by
  rw [node?_put, not_isGiven_concat hname, if_neg Bool.false_ne_true]

lemma node?_erase (t : FileTree) (p q : Place) :
    (t.erase p).node? q =
      if Place.isGiven q then some .directory else if p = q then none else t.node? q := by
  unfold node? erase
  split
  · rfl
  · simp [Std.ExtTreeMap.getElem?_erase]

/-- A database that is found after something was put at a place is that, or was there before. -/
lemma database_of_put {t : FileTree} {k : Nat}
    (h : (t.put q n).node? p = some (.database k)) :
    (p = q ∧ n = .database k) ∨ t.node? p = some (.database k) := by
  rw [node?_put] at h
  split at h
  · cases h
  · split at h
    · next hplace => exact .inl ⟨hplace.symm, Option.some.inj h⟩
    · exact .inr h

/-- A database that is found after a place was cleared was there before, at another place. -/
lemma database_of_erase {t : FileTree} {k : Nat}
    (h : (t.erase q).node? p = some (.database k)) :
    p ≠ q ∧ t.node? p = some (.database k) := by
  rw [node?_erase] at h
  split at h
  · cases h
  · split at h
    · cases h
    · next hplace => exact ⟨Ne.symm hplace, h⟩

lemma node?_erase_of_name (hname : Path.IsName name) :
    (t.erase q).node? (p ++ [name]) = if q = p ++ [name] then none else t.node? (p ++ [name]) := by
  rw [node?_erase, not_isGiven_concat hname, if_neg Bool.false_ne_true]

lemma erase_of_free (h : t.has p = false) : t.erase p = t := by
  have hnone : t.nodes[p]? = none := by
    rw [has, node?] at h
    split at h
    · cases h
    · exact Option.isNone_iff_eq_none.1 (Option.isSome_eq_false_iff.1 h)
  have hsame : t.nodes.erase p = t.nodes := by
    refine Std.ExtTreeMap.ext_getElem? fun q => ?_
    rw [Std.ExtTreeMap.getElem?_erase]
    split
    · next hq =>
        rw [← Std.LawfulEqOrd.eq_of_compare hq, hnone]
    · rfl
  rw [erase, hsame]

lemma put_erase (t : FileTree) (p : Place) (n : FileNode) : (t.erase p).put p n = t.put p n := by
  unfold put erase
  congr 1
  refine Std.ExtTreeMap.ext_getElem? fun q => ?_
  rw [Std.ExtTreeMap.getElem?_insert, Std.ExtTreeMap.getElem?_insert, Std.ExtTreeMap.getElem?_erase]
  split <;> rfl

lemma has_of_node? (h : t.node? p = some n) : t.has p = true := by
  rw [has, h]
  rfl

lemma node?_eq_none_iff : t.node? p = none ↔ t.has p = false := by
  rw [has, Option.isSome_eq_false_iff, Option.isNone_iff_eq_none]

/-- A change under a name in a directory is not seen at other names. -/
lemma concat_ne_concat {last : String} (hne : last ≠ name) (p q : Place) :
    p ++ [last] ≠ q ++ [name] := by
  intro heq
  obtain ⟨-, hsame⟩ := List.append_inj' heq rfl
  exact hne (List.singleton_inj.1 hsame)

lemma node?_put_of_beside (hq : ∀ name, q ≠ p ++ [name]) :
    (t.put (p ++ [name]) n).node? q = t.node? q := by
  rw [node?_put]
  split
  · next hgiven => rw [node?, if_pos hgiven]
  · rw [if_neg fun heq => hq _ heq.symm]

lemma node?_erase_of_beside (hq : ∀ name, q ≠ p ++ [name]) :
    (t.erase (p ++ [name])).node? q = t.node? q := by
  rw [node?_erase]
  split
  · next hgiven => rw [node?, if_pos hgiven]
  · rw [if_neg fun heq => hq _ heq.symm]

/-! ### Trees without loose ends -/

/-- What stands anywhere stands in a directory. -/
def Nested (t : FileTree) : Prop :=
  ∀ p name, t.has (p ++ [name]) = true → t.node? p = some .directory

lemma isGiven_of_concat {last : String} (h : Place.isGiven (p ++ [last]) = true) :
    Place.isGiven p = true := by
  simp only [Place.isGiven, Bool.or_eq_true, beq_iff_eq, List.all_append, Bool.and_eq_true] at h ⊢
  obtain hroot | hdots := h
  · have hnone : p = [] := by simpa using congrArg List.dropLast hroot
    rw [hnone]
    exact .inr rfl
  · exact .inr hdots.1

lemma nested_empty : Nested {} := by
  intro p last hhas
  cases hgiven : Place.isGiven (p ++ [last]) with
  | true => rw [node?, if_pos (isGiven_of_concat hgiven)]
  | false => simp [has, node?, hgiven] at hhas

/-- Only in a directory can anything stand, however deep. -/
lemma Nested.directory_of_below (h : t.Nested) {rest : List String}
    (hhas : t.has (p ++ name :: rest) = true) : t.node? p = some .directory := by
  induction rest using List.reverseRecOn with
  | nil => exact h p name hhas
  | append_singleton rest last ih =>
      have happend : p ++ name :: (rest ++ [last]) = (p ++ name :: rest) ++ [last] := by simp
      rw [happend] at hhas
      exact ih (has_of_node? (h _ last hhas))

/-- A tree in which something is put into a directory, where no directory is lost. -/
lemma Nested.put (h : t.Nested) {dir : Place} (hdir : t.node? dir = some .directory)
    (hnew : n = .directory ∨ t.node? (dir ++ [name]) ≠ some .directory) :
    (t.put (dir ++ [name]) n).Nested := by
  intro p last hhas
  have hput := fun q => node?_put t (dir ++ [name]) q n
  cases hgiven : Place.isGiven p with
  | true => rw [hput, if_pos hgiven]
  | false =>
      rw [has, hput, Bool.eq_false_iff.2 fun h => Bool.eq_false_iff.1 hgiven (isGiven_of_concat h),
        if_neg Bool.false_ne_true] at hhas
      rw [hput, hgiven, if_neg Bool.false_ne_true]
      split at hhas
      · next hplace =>
          obtain ⟨rfl, -⟩ := List.append_inj' hplace rfl
          rw [if_neg (by simp), hdir]
      · have hwas : t.node? p = some .directory := h p last hhas
        split
        · next hplace =>
            -- what stands below the place was there before, so that the place was a directory
            subst hplace
            rw [hnew.resolve_right fun hne => hne hwas]
        · exact hwas

lemma Nested.erase (h : t.Nested) (hp : t.node? p ≠ some .directory) : (t.erase p).Nested := by
  intro q last hhas
  cases hgiven : Place.isGiven q with
  | true => rw [node?_erase, if_pos hgiven]
  | false =>
      rw [has, node?_erase,
        Bool.eq_false_iff.2 fun h => Bool.eq_false_iff.1 hgiven (isGiven_of_concat h),
        if_neg Bool.false_ne_true] at hhas
      rw [node?_erase, hgiven, if_neg Bool.false_ne_true]
      split at hhas
      · cases hhas
      · have hwas : t.node? q = some .directory := h q last hhas
        split
        · next hsame => exact absurd (hsame ▸ hwas) hp
        · exact hwas

/-- What is no directory is moved alone. -/
lemma move_eq (h : t.Nested) (hgiven : Place.isGiven p = false) (hp : t.node? p = some n)
    (hleaf : n ≠ .directory) : t.move p q = (t.erase p).put q n := by
  have hstands : t.nodes[p]? = some n := by
    rw [node?, hgiven] at hp
    exact hp
  have hdistinct : (t.nodes.toList.filter fun m => p.isPrefixOf m.1).Nodup := by
    refine List.Pairwise.filter _ (Std.ExtTreeMap.distinct_keys_toList.imp fun {a b} hne heq => ?_)
    rw [heq] at hne
    exact hne Std.ReflCmp.compare_self
  have hmoved : (t.nodes.toList.filter fun m => p.isPrefixOf m.1) = [(p, n)] := by
    refine List.perm_singleton.1 ((List.perm_ext_iff_of_nodup hdistinct ?_).2 fun m => ?_)
    · simp
    · rw [List.mem_filter, List.mem_singleton, Std.ExtTreeMap.mem_toList_iff_getElem?_eq_some,
        List.isPrefixOf_iff_prefix]
      constructor
      · rintro ⟨hm, rest, hrest⟩
        cases rest with
        | nil =>
            rw [List.append_nil] at hrest
            rw [← hrest, hstands] at hm
            exact Prod.ext hrest.symm (Option.some.inj hm).symm
        | cons name rest =>
            -- something below `p` would make it a directory
            have hhas : t.has (p ++ name :: rest) = true := by
              rw [hrest, has, node?]
              split
              · rfl
              · rw [hm]
                rfl
            rw [h.directory_of_below hhas] at hp
            exact absurd (Option.some.inj hp).symm hleaf
      · rintro rfl
        exact ⟨hstands, List.prefix_rfl⟩
  rw [move, hmoved]
  simp

/-! ### Ways that stay -/

/-- A tree in which all directories of another are. -/
def KeepsDirectories (t t' : FileTree) : Prop :=
  ∀ p, t.node? p = some .directory → t'.node? p = some .directory

lemma KeepsDirectories.walk (h : t.KeepsDirectories t') {base : Place} {names : List String}
    (hwalk : t.walk base names = .ok p) (hp : t.node? p = some .directory) :
    t'.walk base names = .ok p := by
  induction names generalizing base with
  | nil =>
      obtain ⟨-, rfl⟩ := walk_nil_eq_ok.1 hwalk
      exact walk_nil_eq_ok.2 ⟨has_of_node? (h p hp), rfl⟩
  | cons name names ih =>
      obtain ⟨hbase, hshort, hrest⟩ := walk_cons_eq_ok.1 hwalk
      exact walk_cons_eq_ok.2 ⟨h base hbase, hshort, ih hrest⟩

/-- A path that leads to a directory goes on to do so. -/
lemma LeadsTo.mono (hleads : t.LeadsTo path p) (h : t.KeepsDirectories t') :
    t'.LeadsTo path p where
  follow := by
    obtain ⟨hnul, hne, hwalk⟩ := follow_eq_ok.1 hleads.follow
    exact follow_eq_ok.2 ⟨hnul, hne, h.walk hwalk hleads.directory⟩
  directory := h p hleads.directory

lemma keepsDirectories_put (hp : n = .directory ∨ t.node? p ≠ some .directory) :
    t.KeepsDirectories (t.put p n) := by
  intro q hq
  rw [node?_put]
  split
  · rfl
  · split
    · next hsame =>
        subst hsame
        rw [hp.resolve_right fun hne => hne hq]
    · exact hq

lemma keepsDirectories_erase (hp : t.node? p ≠ some .directory) :
    t.KeepsDirectories (t.erase p) := by
  intro q hq
  rw [node?_erase]
  split
  · rfl
  · split
    · next hsame => exact absurd (hsame ▸ hq) hp
    · exact hq

/-- Trees with the same directories. -/
def SameDirectories (t t' : FileTree) : Prop :=
  ∀ p, t'.node? p = some .directory ↔ t.node? p = some .directory

lemma SameDirectories.keeps (h : t.SameDirectories t') : t.KeepsDirectories t' := fun p => (h p).2

lemma sameDirectories_put (hn : n ≠ .directory) (hp : t.node? p ≠ some .directory) :
    t.SameDirectories (t.put p n) := by
  refine fun q => ⟨fun hq => ?_, keepsDirectories_put (.inr hp) q⟩
  rw [node?_put] at hq
  split at hq
  · next hgiven => rw [node?, if_pos hgiven]
  · split at hq
    · exact absurd (Option.some.inj hq) hn
    · exact hq

lemma sameDirectories_erase (hp : t.node? p ≠ some .directory) :
    t.SameDirectories (t.erase p) := by
  refine fun q => ⟨fun hq => ?_, keepsDirectories_erase hp q⟩
  rw [node?_erase] at hq
  split at hq
  · next hgiven => rw [node?, if_pos hgiven]
  · split at hq
    · cases hq
    · exact hq

/-! ### Making directories -/

/-- A tree to which only directories were added, where nothing was. -/
def Grows (t t' : FileTree) : Prop :=
  ∀ p, t'.node? p = t.node? p ∨ t.node? p = none ∧ t'.node? p = some .directory

lemma Grows.refl (t : FileTree) : t.Grows t := fun _ => .inl rfl

lemma Grows.trans {t'' : FileTree} (h : t.Grows t') (h' : t'.Grows t'') : t.Grows t'' := by
  intro p
  obtain hsame | ⟨hnone, hdir⟩ := h p
  · rw [← hsame]
    exact h' p
  · obtain hsame' | ⟨hnone', -⟩ := h' p
    · exact .inr ⟨hnone, hsame'.trans hdir⟩
    · rw [hdir] at hnone'
      cases hnone'

/-- What a path names lies in a directory. -/
lemma locate_directory {dir : Place} (h : t.locate path = .ok (dir, name)) :
    t.node? dir = some .directory := by
  simp only [locate, bind, Except.bind, throw, throwThe, MonadExceptOf.throw, pure, Except.pure]
    at h
  split at h
  · cases h
  split at h
  · cases h
  split at h
  · cases h
  split at h
  · cases h
  split at h
  · cases h
  next hdir =>
    split at h
    · cases h
    · cases h
      exact Classical.not_not.1 hdir

lemma makeDirectory_eq_ok (h : t.makeDirectory path = .ok t') :
    ∃ dir name, t.locate path = .ok (dir, name) ∧ isDotted name = false ∧
      t.has (dir ++ [name]) = false ∧ t' = t.put (dir ++ [name]) .directory := by
  unfold makeDirectory at h
  rcases hlocate : t.locate path with fault | ⟨dir, name⟩
  · rw [hlocate] at h
    cases h
  · rw [hlocate] at h
    simp only [bind, Except.bind] at h
    split at h
    · cases h
    · next hnew =>
        cases h
        obtain ⟨hplain, hfree⟩ := Bool.or_eq_false_iff.1 (Bool.eq_false_iff.2 hnew)
        exact ⟨dir, name, rfl, hplain, hfree, rfl⟩

lemma makeDirectory_grows (h : t.makeDirectory path = .ok t') (hnested : t.Nested) :
    t.Grows t' ∧ t'.Nested := by
  obtain ⟨dir, name, hlocate, -, hfree, rfl⟩ := makeDirectory_eq_ok h
  refine ⟨fun p => ?_, hnested.put (locate_directory hlocate) (.inl rfl)⟩
  rw [node?_put]
  split
  · next hgiven => exact .inl (by rw [node?, if_pos hgiven])
  · split
    · next hp =>
        subst hp
        exact .inr ⟨node?_eq_none_iff.2 hfree, rfl⟩
    · exact .inl rfl

lemma makeFirst_grows {paths : List String} (hnested : t.Nested) :
    t.Grows (t.makeFirst paths).2 ∧ (t.makeFirst paths).2.Nested := by
  induction paths with
  | nil => exact ⟨.refl t, hnested⟩
  | cons path above ih =>
      simp only [makeFirst]
      split
      · -- the directory above is made first
        rcases hmade : t.makeFirst above with ⟨fault | ⟨⟩, middle⟩
        · rw [hmade] at ih
          exact ih
        · rw [hmade] at ih
          obtain ⟨hgrows, hmiddle⟩ := ih
          simp only
          split
          · next hpath =>
              obtain ⟨hgrows', hnested'⟩ := makeDirectory_grows hpath hmiddle
              exact ⟨hgrows.trans hgrows', hnested'⟩
          · exact ⟨hgrows, hmiddle⟩
      · split
        · next hpath => exact makeDirectory_grows hpath hnested
        · exact ⟨.refl t, hnested⟩

/-- Making directories adds nothing but directories. -/
theorem makeDirectories_grows (hnested : t.Nested) (path : String) :
    t.Grows (t.makeDirectories path).2 ∧ (t.makeDirectories path).2.Nested :=
  makeFirst_grows hnested

lemma isDotted_of_isName (hname : Path.IsName name) : isDotted name = false := by
  simp [isDotted, hname.noDot, hname.noDots]

/-- A directory is made in one that is there, unless it is there as well. -/
lemma makeDirectories_join {dir : String} (h : t.LeadsTo dir p) (hname : Path.IsName name)
    (hshort : (Path.join dir name).utf8ByteSize < pathLimit)
    (hfree : t.node? (p ++ [name]) = none ∨ t.node? (p ++ [name]) = some .directory) :
    ∃ made, t.makeDirectories (Path.join dir name) = (.ok (), made) ∧
      made.node? (p ++ [name]) = some .directory ∧
      ∀ q, q ≠ p ++ [name] → made.node? q = t.node? q := by
  obtain ⟨-, hdir, -⟩ := follow_eq_ok.1 h.follow
  have hempty : (Path.join dir name).isEmpty = false := by
    simpa using Path.join_ne_empty hdir hname
  have hlocate : t.locate (Path.join dir name) = .ok (p, name) := by
    rw [locate_join h hname, if_neg (Nat.not_le.2 hshort)]
  have hplain : isDotted name = false := isDotted_of_isName hname
  rw [makeDirectories, Path.ancestry, hempty, if_neg Bool.false_ne_true, makeFirst, makeDirectory,
    hlocate]
  obtain hnone | hthere := hfree
  · refine ⟨t.put (p ++ [name]) .directory, ?_, ?_, ?_⟩
    · simp only [bind, Except.bind, hplain, node?_eq_none_iff.1 hnone, Bool.or_self,
        Bool.false_eq_true, if_false]
      rfl
    · rw [node?_put_of_name hname, if_pos rfl]
    · intro q hq
      rw [node?_put]
      split
      · next hgiven => rw [node?, if_pos hgiven]
      · rw [if_neg (Ne.symm hq)]
  · refine ⟨t, ?_, hthere, fun _ _ => rfl⟩
    have hreached : t.isDirectory (Path.join dir name) = true := by
      have hfollow : t.follow (Path.join dir name) = .ok (p ++ [name]) :=
        (follow_join_eq_ok h hname).2 ⟨has_of_node? hthere, rfl⟩
      rw [isDirectory, find_of_short hshort, hfollow]
      simpa [Except.toOption] using hthere
    simp only [bind, Except.bind, hplain, has_of_node? hthere, Bool.or_true, if_true]
    simp [throw, throwThe, MonadExceptOf.throw, hreached]

/-- If nothing is where the path of a directory leads, that directory is made before what goes into
it. -/
lemma makeDirectories_join_of_missing {dir : String} (hmissing : t.follow dir = .error .missing)
    (hmade : t.makeFirst (Path.lineage dir) = (.ok (), t')) (h : t'.LeadsTo dir p)
    (hname : Path.IsName name) (hshort : (Path.join dir name).utf8ByteSize < pathLimit) :
    t.makeDirectories (Path.join dir name) = t'.makeDirectories (Path.join dir name) := by
  obtain ⟨hnul, hdir, -⟩ := follow_eq_ok.1 h.follow
  have hlost : t.makeDirectory (Path.join dir name) = .error .missing := by
    rw [makeDirectory, locate_join_of_missing hnul hdir hmissing hname hshort]
    rfl
  have hlocate : t'.locate (Path.join dir name) = .ok (p, name) := by
    rw [locate_join h hname, if_neg (Nat.not_le.2 hshort)]
  have hfound : t'.makeDirectory (Path.join dir name) ≠ .error .missing := by
    rw [makeDirectory, hlocate]
    simp only [bind, Except.bind]
    split <;> exact nofun
  rw [makeDirectories, makeDirectories, Path.ancestry_join hdir hname, makeFirst, makeFirst, hlost]
  simp only [hmade]

/-! ### Files in a directory -/

section Files

variable {dir : String} (h : t.LeadsTo dir p) (hname : Path.IsName name)
include h hname

lemma placeForFile_eq_ok {r : Place} :
    t.placeForFile (Path.join dir name) = .ok r ↔
      (Path.join dir name).utf8ByteSize < pathLimit ∧
        t.node? (p ++ [name]) ≠ some .directory ∧ r = p ++ [name] := by
  obtain ⟨-, hdir, -⟩ := follow_eq_ok.1 h.follow
  rw [placeForFile, locate_join h hname]
  split
  · next hlong => simp [bind, Except.bind, Nat.not_lt.2 hlong]
  · next hshort =>
      simp only [bind, Except.bind, isDotted_of_isName hname, Path.endsInSlash_join hdir hname,
        Bool.false_or, beq_iff_eq, Nat.lt_of_not_le hshort, true_and]
      split
      · next hthere => simp [throw, throwThe, MonadExceptOf.throw, hthere]
      · next hfree => simp [pure, Except.pure, hfree, eq_comm]

lemma removeFile_eq_ok :
    t.removeFile (Path.join dir name) = .ok t' ↔
      (Path.join dir name).utf8ByteSize < pathLimit ∧ t.has (p ++ [name]) = true ∧
        t.node? (p ++ [name]) ≠ some .directory ∧ t' = t.erase (p ++ [name]) := by
  obtain ⟨-, hdir, -⟩ := follow_eq_ok.1 h.follow
  rw [removeFile, locate_join h hname]
  split
  · next hlong => simp [bind, Except.bind, Nat.not_lt.2 hlong]
  · next hshort =>
      simp only [bind, Except.bind, isDotted_of_isName hname, Path.endsInSlash_join hdir hname,
        Bool.false_eq_true, if_false, Nat.lt_of_not_le hshort, true_and]
      split
      · next hnone => simp [throw, throwThe, MonadExceptOf.throw, node?_eq_none_iff.1 hnone]
      · next hthere => simp [throw, throwThe, MonadExceptOf.throw, hthere]
      · next n hplain hnode =>
          have hleaf : n ≠ .directory := hplain
          simp [pure, Except.pure, has_of_node? hnode, hnode, hleaf, eq_comm]

/-- A file that may be in the way is removed. -/
lemma clear_eq_ok :
    (if t.reaches (Path.join dir name) then t.removeFile (Path.join dir name) else .ok t) =
        .ok t' ↔
      ((Path.join dir name).utf8ByteSize < pathLimit ∧ t.node? (p ++ [name]) ≠ some .directory ∧
          t' = t.erase (p ++ [name])) ∨
        pathLimit ≤ (Path.join dir name).utf8ByteSize ∧ t' = t := by
  by_cases hlong : pathLimit ≤ (Path.join dir name).utf8ByteSize
  · rw [reaches_join_of_long h hname hlong, if_neg Bool.false_ne_true]
    simp [hlong, Nat.not_lt.2 hlong, eq_comm]
  · have hshort := Nat.lt_of_not_le hlong
    rw [reaches_join h hname hshort]
    cases hhas : t.has (p ++ [name]) with
    | true =>
        rw [if_pos rfl, removeFile_eq_ok h hname]
        simp [hlong, hshort, hhas]
    | false =>
        rw [if_neg Bool.false_ne_true, erase_of_free hhas, node?_eq_none_iff.2 hhas]
        simp [hlong, hshort, eq_comm]

lemma rename_eq_ok {newName : String} (hnewName : Path.IsName newName) {n : FileNode}
    (hn : t.node? (p ++ [name]) = some n) (hleaf : n ≠ .directory)
    (hfree : t.node? (p ++ [newName]) ≠ some .directory) :
    t.rename (Path.join dir name) (Path.join dir newName) = .ok t' ↔
      (Path.join dir name).utf8ByteSize < pathLimit ∧
        (Path.join dir newName).utf8ByteSize < pathLimit ∧
          t' = t.move (p ++ [name]) (p ++ [newName]) := by
  rw [rename, locate_join h hname, locate_join h hnewName]
  split
  · next hlong => simp [bind, Except.bind, Nat.not_lt.2 hlong]
  · next hshort =>
      split
      · next hlong' => simp [bind, Except.bind, Nat.not_lt.2 hlong']
      · next hshort' =>
          simp only [bind, Except.bind, hn, Nat.lt_of_not_le hshort, Nat.lt_of_not_le hshort',
            true_and]
          split
          · next hnone => cases hnone
          · next hdir _ => exact absurd (Option.some.inj hdir) hleaf
          · next hdir _ => exact absurd (Option.some.inj hdir) hleaf
          · next hdir => exact absurd hdir hfree
          · simp [pure, Except.pure, eq_comm]

end Files

end EpochSplit.FileTree
