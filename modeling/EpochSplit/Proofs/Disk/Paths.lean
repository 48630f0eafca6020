import EpochSplit.Disk.Change
import Mathlib.Tactic.Common
/-!
# Names below a directory

What a path leads to when a name is put after the path of a directory: the place of that name in
the directory (`locate_join`, `follow_join_eq_ok`).  The path of the directory may be written in any
way, with slashes at its end, with `.` and with `..`.
-/

namespace EpochSplit

/-! ### Joining -/

namespace Path

/-- A name that stands for itself: it is no way to a directory, and it is short enough. -/
structure IsName (name : String) : Prop where
  nonempty : name ≠ ""
  noDot : name ≠ "."
  noDots : name ≠ ".."
  noSlash : '/' ∉ name.toList
  noNul : '\x00' ∉ name.toList
  short : name.utf8ByteSize ≤ FileTree.nameLimit

lemma parts_slash (a b : String) : parts (a ++ "/" ++ b) = parts a ++ parts b := by
  have hslash : "/".toList = ['/'] := by decide
  rw [parts, String.toList_append, String.toList_append, hslash, List.append_assoc,
    List.singleton_append, List.splitOn, List.splitOnP_append_cons _ _ (by simp), List.map_append]
  rfl

variable {base name : String}

lemma parts_of_isName (h : IsName name) : parts name = [name] := by
  rw [parts, List.splitOn_eq_singleton h.noSlash]
  simp

lemma not_isAbsolute (h : IsName name) : isAbsolute name = false := by
  cases hname : name.toList with
  | nil => simp [isAbsolute, hname]
  | cons c cs =>
      have hslash := h.noSlash
      rw [hname] at hslash
      simp only [isAbsolute, hname, List.head?_cons]
      simpa using fun hc => hslash (by simp [hc])

/-- A name is put after a path, with a slash before it unless one is there. -/
lemma join_eq (hbase : base ≠ "") (hname : IsName name) :
    (∃ front, base = front ++ "/" ∧ join base name = front ++ "/" ++ name) ∨
      join base name = base ++ "/" ++ name := by
  have hplain : (isAbsolute name || base.isEmpty) = false := by
    rw [not_isAbsolute hname]
    simpa using hbase
  rw [join, hplain, if_neg Bool.false_ne_true]
  split
  · next hslash =>
      left
      obtain ⟨front, hfront⟩ := List.getLast?_eq_some_iff.1 (beq_iff_eq.1 hslash)
      have hbase : base = String.ofList front ++ "/" := by
        rw [← String.toList_inj, String.toList_append, hfront, String.toList_ofList]
        rfl
      exact ⟨String.ofList front, hbase, by rw [← hbase]⟩
  · exact .inr rfl

lemma parts_ne_nil (path : String) : parts path ≠ [] :=
  fun h => List.splitOn_ne_nil _ _ (List.map_eq_nil_iff.1 h)

/-- The parts of the path of a name, beside those of the path of its directory. -/
lemma exists_parts_join (hbase : base ≠ "") (hname : IsName name) :
    ∃ front, front ≠ [] ∧ parts (join base name) = front ++ [name] ∧
      (parts base = front ∨ parts base = front ++ [""]) := by
  obtain ⟨front, rfl, hjoin⟩ | hjoin := join_eq hbase hname
  · refine ⟨parts front, parts_ne_nil front, ?_, .inr ?_⟩
    · rw [hjoin, parts_slash, parts_of_isName hname]
    · rw [← String.append_empty (s := front ++ "/"), parts_slash]
      rfl
  · refine ⟨parts base, parts_ne_nil base, ?_, .inl rfl⟩
    rw [hjoin, parts_slash, parts_of_isName hname]

/-- The path of a name begins with that of its directory and ends with the name. -/
lemma exists_toList_join (hbase : base ≠ "") (hname : IsName name) :
    ∃ slash, (slash = [] ∨ slash = ['/']) ∧
      (join base name).toList = base.toList ++ (slash ++ name.toList) := by
  obtain ⟨front, rfl, hjoin⟩ | hjoin := join_eq hbase hname
  · exact ⟨[], .inl rfl, by rw [hjoin, String.toList_append, List.nil_append]⟩
  · refine ⟨['/'], .inr rfl, ?_⟩
    rw [hjoin, String.append_assoc, String.toList_append, String.toList_append]
    rfl

lemma utf8ByteSize_join (hbase : base ≠ "") (hname : IsName name) :
    (join base name).utf8ByteSize =
      base.utf8ByteSize + (if endsInSlash base then 0 else 1) + name.utf8ByteSize := by
  have hplain : (isAbsolute name || base.isEmpty) = false := by
    rw [not_isAbsolute hname]
    simpa using hbase
  rw [join, hplain, if_neg Bool.false_ne_true]
  split
  · rw [String.utf8ByteSize_append, Nat.add_zero]
  · rw [String.utf8ByteSize_append, String.utf8ByteSize_append]
    rfl

lemma toList_ne_nil {s : String} (h : s ≠ "") : s.toList ≠ [] := by
  rw [Ne, ← String.toList_empty, String.toList_inj]
  exact h

lemma isAbsolute_join (hbase : base ≠ "") (hname : IsName name) :
    isAbsolute (join base name) = isAbsolute base := by
  obtain ⟨slash, -, hjoin⟩ := exists_toList_join hbase hname
  rw [isAbsolute, hjoin, List.head?_append, Option.or_of_isSome, isAbsolute]
  rw [List.isSome_head?]
  exact toList_ne_nil hbase

lemma join_ne_empty (hbase : base ≠ "") (hname : IsName name) : join base name ≠ "" := by
  intro hempty
  obtain ⟨slash, -, hjoin⟩ := exists_toList_join hbase hname
  rw [hempty, String.toList_empty] at hjoin
  exact toList_ne_nil hbase (List.append_eq_nil_iff.1 hjoin.symm).1

lemma contains_nul_join (hbase : base ≠ "") (hname : IsName name) :
    (join base name).toList.contains '\x00' = base.toList.contains '\x00' := by
  obtain ⟨slash, hslash, hjoin⟩ := exists_toList_join hbase hname
  have hnone : '\x00' ∉ slash ++ name.toList := by
    obtain rfl | rfl := hslash
    · exact hname.noNul
    · simpa using hname.noNul
  have hclean : (slash ++ name.toList).contains '\x00' = false := by
    rw [List.contains_eq_mem, decide_eq_false hnone]
  rw [hjoin, List.contains_append, hclean, Bool.or_false]

lemma endsInSlash_join (hbase : base ≠ "") (hname : IsName name) :
    endsInSlash (join base name) = false := by
  obtain ⟨slash, -, hjoin⟩ := exists_toList_join hbase hname
  rw [endsInSlash, hjoin, ← List.append_assoc, List.getLast?_append,
    Option.or_of_isSome (by simpa using hname.nonempty)]
  refine beq_eq_false_iff_ne.2 fun hlast => hname.noSlash ?_
  exact List.mem_of_getLast? hlast

/-! ### Directories on the way -/

/-- The components of a path under which a name was put are those of the path and the name. -/
lemma components_join (hbase : base ≠ "") (hname : IsName name) :
    components (join base name) = components base ++ [name] := by
  obtain ⟨front, hfront, hjoin, hparts⟩ := exists_parts_join hbase hname
  have hnamed : ((parts (join base name)).filter fun p => p != "" && p != ".") =
      ((parts base).filter fun p => p != "" && p != ".") ++ [name] := by
    rw [hjoin, List.filter_append]
    obtain hparts | hparts := hparts <;> simp [hparts, hname.nonempty, hname.noDot]
  have hhead : (parts (join base name)).head? = (parts base).head? := by
    obtain ⟨first, rest, rfl⟩ := List.exists_cons_of_ne_nil hfront
    obtain hparts | hparts := hparts <;> rw [hjoin, hparts] <;> rfl
  simp only [components, hnamed, hhead, isAbsolute_join hbase hname]
  split
  · rfl
  · split <;> rfl

/-- The directories that a path names, from the innermost on. -/
def lineage (path : String) : List String :=
  (List.range' 1 (components path).length).reverse.map fun n =>
    ofComponents ((components path).take n)

/-- What is put into a directory lies in the directories that the path of that names. -/
lemma ancestry_join (hbase : base ≠ "") (hname : IsName name) :
    ancestry (join base name) = join base name :: lineage base := by
  have hne : (join base name).isEmpty = false := by simpa using join_ne_empty hbase hname
  rw [ancestry, hne, if_neg Bool.false_ne_true, lineage, components_join hbase hname,
    List.length_append]
  refine congrArg (join base name :: ·) (List.map_congr_left fun n hn => ?_)
  rw [List.mem_reverse, List.mem_range'_1] at hn
  rw [List.take_append_of_le_length]
  simp at hn
  omega

end Path

/-! ### Walking -/

namespace FileTree

variable {t : FileTree} {base p r : Place} {names : List String} {name path : String}

lemma walk_nil_eq_ok : t.walk base [] = .ok r ↔ t.has base = true ∧ r = base := by
  rw [walk]
  split
  · next hhas => simp [hhas, eq_comm]
  · next hhas => simp [hhas]

lemma walk_cons_eq_ok :
    t.walk base (name :: names) = .ok r ↔
      t.node? base = some .directory ∧ name.utf8ByteSize ≤ nameLimit ∧
        t.walk (Place.enter base name) names = .ok r := by
  rw [walk]
  split
  · next hnone => simp [hnone]
  · next hdir =>
      split
      · next hlong => simp [Nat.not_le.2 hlong]
      · next hshort => simp [hdir, Nat.not_lt.1 hshort]
  · next hother hnode =>
      refine iff_of_false (fun h => nomatch h) ?_
      rintro ⟨hdir, -⟩
      rw [hnode] at hdir
      exact hother (Option.some.inj hdir)

/-- The last part of a path leads on from where the parts before it lead to. -/
lemma walk_concat_eq_ok :
    t.walk base (names ++ [name]) = .ok r ↔
      ∃ q, t.walk base names = .ok q ∧ t.node? q = some .directory ∧
        name.utf8ByteSize ≤ nameLimit ∧ t.has (Place.enter q name) = true ∧
          r = Place.enter q name := by
  induction names generalizing base with
  | nil =>
      rw [List.nil_append, walk_cons_eq_ok, walk_nil_eq_ok]
      constructor
      · rintro ⟨hdir, hshort, hhas, rfl⟩
        exact ⟨base, walk_nil_eq_ok.2 ⟨by rw [has, hdir]; rfl, rfl⟩, hdir, hshort, hhas, rfl⟩
      · rintro ⟨q, hq, hdir, hshort, hhas, rfl⟩
        obtain ⟨-, rfl⟩ := walk_nil_eq_ok.1 hq
        exact ⟨hdir, hshort, hhas, rfl⟩
  | cons first names ih =>
      rw [List.cons_append, walk_cons_eq_ok, ih]
      constructor
      · rintro ⟨hdir, hshort, q, hq, hrest⟩
        exact ⟨q, walk_cons_eq_ok.2 ⟨hdir, hshort, hq⟩, hrest⟩
      · rintro ⟨q, hq, hrest⟩
        obtain ⟨hdir, hshort, hq⟩ := walk_cons_eq_ok.1 hq
        exact ⟨hdir, hshort, q, hq, hrest⟩

lemma has_of_walk (h : t.walk base names = .ok r) : t.has r = true := by
  induction names generalizing base with
  | nil =>
      obtain ⟨hhas, rfl⟩ := walk_nil_eq_ok.1 h
      exact hhas
  | cons name names ih =>
      obtain ⟨-, -, hrest⟩ := walk_cons_eq_ok.1 h
      exact ih hrest

/-- Where some parts lead nowhere, more of them do not help. -/
lemma walk_append_of_error {fault : FileFault} (h : t.walk base names = .error fault)
    (more : List String) : t.walk base (names ++ more) = .error fault := by
  induction names generalizing base with
  | nil =>
      rw [walk] at h
      split at h
      · cases h
      · next hhas =>
          cases h
          have hnone : t.node? base = none := by
            simpa [has] using hhas
          cases more with
          | nil => rw [List.append_nil, walk, if_neg hhas]
          | cons name more => rw [List.nil_append, walk, hnone]
  | cons name names ih =>
      rw [List.cons_append]
      rw [walk] at h ⊢
      split at h
      · exact h
      · split at h
        · next hlong => rw [if_pos hlong]; exact h
        · next hshort => rw [if_neg hshort]; exact ih h
      · exact h

/-- Parts lead on from where those before them lead to. -/
lemma walk_append_of_ok (h : t.walk base names = .ok r) (more : List String) :
    t.walk base (names ++ more) = t.walk r more := by
  induction names generalizing base with
  | nil =>
      obtain ⟨-, rfl⟩ := walk_nil_eq_ok.1 h
      rfl
  | cons name names ih =>
      obtain ⟨hdir, hshort, hrest⟩ := walk_cons_eq_ok.1 h
      rw [List.cons_append, walk, hdir]
      simp only [Nat.not_lt.2 hshort, if_false]
      exact ih hrest

lemma follow_eq_ok :
    t.follow path = .ok p ↔
      path.toList.contains '\x00' = false ∧ path ≠ "" ∧
        t.walk (Place.start path) (Path.parts path) = .ok p := by
  rw [follow]
  split
  · next hnul => exact iff_of_false (fun h => nomatch h) fun h => absurd (h.1.symm.trans hnul) nofun
  · next hnul =>
      have hnul : path.toList.contains '\x00' = false := Bool.eq_false_iff.2 hnul
      split
      · next hempty => simp [String.isEmpty_iff.1 hempty]
      · next hempty =>
          have hne : path ≠ "" := fun h => hempty (String.isEmpty_iff.2 h)
          rw [hnul, eq_self, true_and, and_iff_right hne]

lemma find_of_short (hshort : path.utf8ByteSize < pathLimit) : t.find path = t.follow path := by
  rw [find, decide_eq_false (Nat.not_le.2 hshort), Bool.false_and, if_neg Bool.false_ne_true]

/-! ### Names below a directory -/

/-- A path leads to a directory. -/
structure LeadsTo (t : FileTree) (path : String) (p : Place) : Prop where
  follow : t.follow path = .ok p
  directory : t.node? p = some .directory

variable {dir : String}

lemma enter_of_isName (hname : Path.IsName name) (p : Place) :
    Place.enter p name = p ++ [name] := by
  have hplain : ¬(name = "" ∨ name = ".") := not_or.2 ⟨hname.nonempty, hname.noDot⟩
  rw [Place.enter, if_neg hplain, if_neg hname.noDots]

/-- The parts before a name lead to the directory that the name was put after. -/
lemma exists_walk_join (h : t.LeadsTo dir p) (hname : Path.IsName name) :
    ∃ front, Path.parts (Path.join dir name) = front ++ [name] ∧
      t.walk (Place.start (Path.join dir name)) front = .ok p := by
  obtain ⟨-, hdir, hwalk⟩ := follow_eq_ok.1 h.follow
  obtain ⟨front, -, hparts, hfront⟩ := Path.exists_parts_join hdir hname
  refine ⟨front, hparts, ?_⟩
  rw [Place.start, Path.isAbsolute_join hdir hname, ← Place.start]
  obtain hfront | hfront := hfront
  · rwa [hfront] at hwalk
  · -- a slash at the end of a path leads nowhere else
    rw [hfront] at hwalk
    obtain ⟨q, hq, -, -, -, hp⟩ := walk_concat_eq_ok.1 hwalk
    have hsame : p = q := by simpa [Place.enter] using hp
    rwa [hsame]

lemma follow_join_eq_ok (h : t.LeadsTo dir p) (hname : Path.IsName name) :
    t.follow (Path.join dir name) = .ok r ↔ t.has (p ++ [name]) = true ∧ r = p ++ [name] := by
  obtain ⟨hnul, hdir, -⟩ := follow_eq_ok.1 h.follow
  obtain ⟨front, hparts, hfront⟩ := exists_walk_join h hname
  rw [follow_eq_ok, Path.contains_nul_join hdir hname, hparts, walk_concat_eq_ok,
    ← enter_of_isName hname]
  constructor
  · rintro ⟨-, -, q, hq, -, -, hhas, rfl⟩
    rw [hfront] at hq
    cases hq
    exact ⟨hhas, rfl⟩
  · rintro ⟨hhas, rfl⟩
    exact ⟨hnul, Path.join_ne_empty hdir hname, p, hfront, h.directory, hname.short, hhas, rfl⟩

lemma reaches_join (h : t.LeadsTo dir p) (hname : Path.IsName name)
    (hshort : (Path.join dir name).utf8ByteSize < pathLimit) :
    t.reaches (Path.join dir name) = t.has (p ++ [name]) := by
  rw [reaches, find_of_short hshort]
  rcases hresult : t.follow (Path.join dir name) with fault | q
  · cases hhas : t.has (p ++ [name]) with
    | false => rfl
    | true =>
        rw [(follow_join_eq_ok h hname).2 ⟨hhas, rfl⟩] at hresult
        cases hresult
  · rw [((follow_join_eq_ok h hname).1 hresult).1]
    rfl

lemma reaches_join_of_long (h : t.LeadsTo dir p) (hname : Path.IsName name)
    (hlong : pathLimit ≤ (Path.join dir name).utf8ByteSize) :
    t.reaches (Path.join dir name) = false := by
  obtain ⟨hnul, hdir, -⟩ := follow_eq_ok.1 h.follow
  rw [reaches, find, Path.contains_nul_join hdir hname, hnul, decide_eq_true hlong]
  rfl

/-- The last name of a path that was put together is the one that was put after the directory. -/
lemma locate_join (h : t.LeadsTo dir p) (hname : Path.IsName name) :
    t.locate (Path.join dir name) =
      if pathLimit ≤ (Path.join dir name).utf8ByteSize then .error .nameTooLong
      else .ok (p, name) := by
  obtain ⟨hnul, hdir, -⟩ := follow_eq_ok.1 h.follow
  obtain ⟨front, hparts, hfront⟩ := exists_walk_join h hname
  have hempty : (Path.join dir name).isEmpty = false := by
    simpa using Path.join_ne_empty hdir hname
  have hnames : ((front ++ [name]).reverse.dropWhile (· == "")) = name :: front.reverse := by
    rw [List.reverse_concat, List.dropWhile_cons_of_neg (by simpa using hname.nonempty)]
  have hshort : ¬nameLimit < name.utf8ByteSize := Nat.not_lt.2 hname.short
  simp only [locate, Path.contains_nul_join hdir hname, hnul, hempty, hparts, hnames,
    List.tail_cons, List.reverse_reverse, hfront, List.headD_cons, Bool.false_eq_true, if_false,
    bind, Except.bind, pure, Except.pure, h.directory, hshort, ne_eq, not_true_eq_false]
  split <;> rfl

/-! ### Names below a directory that is not there -/

/-- If nothing is where the path of a directory leads, nothing can be found or made below it. -/
lemma locate_join_of_missing (hnul : dir.toList.contains '\x00' = false) (hdir : dir ≠ "")
    (hmissing : t.follow dir = .error .missing) (hname : Path.IsName name)
    (hshort : (Path.join dir name).utf8ByteSize < pathLimit) :
    t.locate (Path.join dir name) = .error .missing := by
  obtain ⟨front, -, hparts, hfront⟩ := Path.exists_parts_join hdir hname
  have hempty : (Path.join dir name).isEmpty = false := by
    simpa using Path.join_ne_empty hdir hname
  have hwalk : t.walk (Place.start dir) (Path.parts dir) = .error .missing := by
    have hne : dir.isEmpty = false := by simpa using hdir
    rw [follow, hnul, hne] at hmissing
    exact hmissing
  have hlost : t.walk (Place.start dir) front = .error .missing := by
    obtain hfront | hfront := hfront
    · rwa [hfront] at hwalk
    · rw [hfront] at hwalk
      rcases hresult : t.walk (Place.start dir) front with fault | q
      · rw [walk_append_of_error hresult] at hwalk
        exact hwalk
      · -- a slash at the end of a path can only find that there is no directory
        have hthere : t.has q = true := has_of_walk hresult
        rw [walk_append_of_ok hresult, walk] at hwalk
        split at hwalk
        · next hnone => rw [has, hnone] at hthere; cases hthere
        · have henter : Place.enter q "" = q := by simp [Place.enter]
          rw [if_neg (by decide), henter, walk, if_pos hthere] at hwalk
          cases hwalk
        · cases hwalk
  have hnames : ((front ++ [name]).reverse.dropWhile (· == "")) = name :: front.reverse := by
    rw [List.reverse_concat, List.dropWhile_cons_of_neg (by simpa using hname.nonempty)]
  have hstart : Place.start (Path.join dir name) = Place.start dir := by
    rw [Place.start, Path.isAbsolute_join hdir hname, ← Place.start]
  simp only [locate, Path.contains_nul_join hdir hname, hnul, hempty, hparts, hnames,
    List.tail_cons, List.reverse_reverse, hstart, hlost, Nat.not_le.2 hshort, Bool.false_eq_true,
    if_false, bind, Except.bind]

end FileTree

end EpochSplit
