import EpochSplit.Proofs.Key.Order
import EpochSplit.Proofs.Metadata.Assembly
/-!
# Metadata as a join

The metadata of an archive join two of its indices: the processed ranges, which are filed under the
epochs that their records name, and the last processed ticks, which are filed under the epochs that
their keys name.  They can be assembled if all pairs of both indices can be read, and then they hold
just what the indices say (`joinsIndices_metadata`).
-/

namespace EpochSplit

/-! ### The last in order -/

/-- The last member of an ordered list with a property comes after all others that have it. -/
lemma find?_reverse_eq_some_iff {α : Type} {R : α → α → Prop} {as : List α} {p : α → Bool} {a : α}
    (hasymm : ∀ a b, R a b → ¬R b a) (has : as.Pairwise R) :
    as.reverse.find? p = some a ↔
      a ∈ as ∧ p a = true ∧ ∀ b ∈ as, p b = true → b = a ∨ R b a := by
  have hlast : ∀ {a}, as.reverse.find? p = some a →
      a ∈ as ∧ p a = true ∧ ∀ b ∈ as, p b = true → b = a ∨ R b a := by
    intro a hfind
    obtain ⟨ha, after, before, hsplit, hafter⟩ := List.find?_eq_some_iff_append.1 hfind
    have hall : as = before.reverse ++ a :: after.reverse := by
      rw [← List.reverse_reverse as, hsplit]
      simp
    refine ⟨List.mem_reverse.1 (List.mem_of_find?_eq_some hfind), ha, fun b hb hpb => ?_⟩
    rw [hall] at hb has
    rcases List.mem_append.1 hb with hb | hb
    · exact .inr ((List.pairwise_append.1 has).2.2 b hb a List.mem_cons_self)
    · rcases List.mem_cons.1 hb with rfl | hb
      · exact .inl rfl
      · have hnot := hafter b (List.mem_reverse.1 hb)
        rw [hpb] at hnot
        cases hnot
  refine ⟨hlast, ?_⟩
  rintro ⟨ha, hpa, hothers⟩
  obtain ⟨a', ha'⟩ := Option.isSome_iff_exists.1
    (List.find?_isSome.2 ⟨a, List.mem_reverse.2 ha, hpa⟩)
  obtain ⟨hmem', hpa', hothers'⟩ := hlast ha'
  rcases hothers a' hmem' hpa' with rfl | hbefore
  · exact ha'
  · rcases hothers' a ha hpa with rfl | hafter
    · exact ha'
    · exact absurd hafter (hasymm _ _ hbefore)

/-! ### Last processed ticks -/

lemma decodeWord_eq_ok_iff {ns : Namespace} {value : Bytes} {n : UInt32} :
    Wire.decodeWord ns value = .ok n ↔
      value.length = 4 ∧ n = UInt32.ofNat (Bytes.ofLittleEndian value) := by
  unfold Wire.decodeWord
  split
  · next hlength => simp [hlength, eq_comm]
  · next hlength => simp [hlength]

/-- A pair of a last processed tick is read as the epoch in its key and the number in its value. -/
lemma readLastTick_eq_ok_iff {e : Entry} {epoch tick : UInt32} :
    readLastTick e = .ok (epoch, tick) ↔
      e.1 = Key.word .lastProcessedTickPerEpoch epoch ∧ e.2.length = 4 ∧
        tick = UInt32.ofNat (Bytes.ofLittleEndian e.2) := by
  constructor
  · intro h
    unfold readLastTick at h
    rcases hepoch : Key.decodeEpoch .lastProcessedTickPerEpoch e.1 with fault | epoch'
    · rw [hepoch] at h
      cases h
    · rcases hword : Wire.decodeWord .lastProcessedTickPerEpoch e.2 with fault | tick'
      · rw [hepoch, hword] at h
        cases h
      · rw [hepoch, hword] at h
        cases h
        exact ⟨(Key.decodeEpoch_eq_ok_iff rfl).1 hepoch, decodeWord_eq_ok_iff.1 hword⟩
  · rintro ⟨hkey, hvalue⟩
    simp only [readLastTick, (Key.decodeEpoch_eq_ok_iff rfl).2 hkey,
      decodeWord_eq_ok_iff.2 hvalue, bind, Except.bind]
    rfl

/-- The keys of epochs are those of the numbers of 32 bits. -/
lemma exists_word_iff {ns : Namespace} {key : Bytes} :
    (∃ epoch, key = Key.word ns epoch) ↔
      ∃ n : UInt64, key = Key.numeric ns n ∧ n.toNat < 2 ^ 32 := by
  constructor
  · rintro ⟨epoch, rfl⟩
    exact ⟨epoch.toUInt64, rfl, epoch.toNat_lt⟩
  · rintro ⟨n, rfl, hlt⟩
    exact ⟨n.toUInt32, by rw [Key.word, Key.toUInt64_toUInt32 hlt]⟩

namespace Contents

/-- Each last processed tick is under a key that is a number of 32 bits, and has four bytes. -/
def ReadableTicks (archive : Contents) : Prop :=
  ∀ e ∈ archive.scan (.ofNamespace .lastProcessedTickPerEpoch),
    (∃ n : UInt64, e.1 = Key.numeric .lastProcessedTickPerEpoch n ∧ n.toNat < 2 ^ 32) ∧
      e.2.length = 4

/-- The last processed tick of an epoch, or zero. -/
def lastTick (archive : Contents) (epoch : UInt32) : UInt32 :=
  (archive[Key.word .lastProcessedTickPerEpoch epoch]?.map fun value =>
    UInt32.ofNat (Bytes.ofLittleEndian value)).getD 0

variable {archive : Contents} {epoch tick : UInt32}

lemma readableTicks_iff :
    archive.ReadableTicks ↔ archive.Readable .lastProcessedTickPerEpoch readLastTick := by
  refine forall₂_congr fun e _ => ?_
  rw [← exists_word_iff]
  constructor
  · rintro ⟨⟨epoch, hkey⟩, hlength⟩
    exact ⟨(epoch, _), readLastTick_eq_ok_iff.2 ⟨hkey, hlength, rfl⟩⟩
  · rintro ⟨p, hread⟩
    obtain ⟨hkey, hlength, -⟩ := readLastTick_eq_ok_iff.1 hread
    exact ⟨⟨_, hkey⟩, hlength⟩

/-- The last processed ticks of an archive. -/
def ticks (archive : Contents) : Std.ExtTreeMap UInt32 UInt32 :=
  ticksByEpoch ((archive.scan (.ofNamespace .lastProcessedTickPerEpoch)).filterMap fun e =>
    (readLastTick e).toOption)

/-- What is listed for an epoch is what is stored under the key of the epoch. -/
lemma getElem?_ticks : archive.ticks[epoch]? = some tick ↔
    ∃ value, archive[Key.word .lastProcessedTickPerEpoch epoch]? = some value ∧ value.length = 4 ∧
      tick = UInt32.ofNat (Bytes.ofLittleEndian value) := by
  have hmem : ∀ {tick}, (epoch, tick) ∈
      (archive.scan (.ofNamespace .lastProcessedTickPerEpoch)).filterMap
        (fun e => (readLastTick e).toOption) ↔
      ∃ value, archive[Key.word .lastProcessedTickPerEpoch epoch]? = some value ∧
        value.length = 4 ∧ tick = UInt32.ofNat (Bytes.ofLittleEndian value) := by
    intro tick
    simp only [List.mem_filterMap, toOption_eq_some_iff, mem_scan,
      Std.ExtTreeMap.get?_eq_getElem?]
    constructor
    · rintro ⟨e, ⟨hstored, -⟩, hread⟩
      obtain ⟨hkey, hlength, rfl⟩ := readLastTick_eq_ok_iff.1 hread
      exact ⟨e.2, by rwa [← hkey], hlength, rfl⟩
    · rintro ⟨value, hstored, hlength, rfl⟩
      exact ⟨(_, value), ⟨hstored, KeyRange.contains_word rfl epoch⟩,
        readLastTick_eq_ok_iff.2 ⟨rfl, hlength, rfl⟩⟩
  rw [← hmem]
  refine getElem?_ticksByEpoch fun tick tick' h h' => ?_
  obtain ⟨value, hstored, -, rfl⟩ := hmem.1 h
  obtain ⟨value', hstored', -, rfl⟩ := hmem.1 h'
  rw [hstored] at hstored'
  rw [Option.some.inj hstored']

lemma getD_ticks (h : archive.ReadableTicks) (epoch : UInt32) :
    archive.ticks[epoch]?.getD 0 = archive.lastTick epoch := by
  unfold lastTick
  cases hstored : archive[Key.word .lastProcessedTickPerEpoch epoch]? with
  | none =>
      cases htick : archive.ticks[epoch]? with
      | none => rfl
      | some tick =>
          obtain ⟨value, hvalue, -⟩ := getElem?_ticks.1 htick
          rw [hstored] at hvalue
          cases hvalue
  | some value =>
      have hscanned : (Key.word .lastProcessedTickPerEpoch epoch, value) ∈
          archive.scan (.ofNamespace .lastProcessedTickPerEpoch) :=
        mem_scan.2 ⟨hstored, KeyRange.contains_word rfl epoch⟩
      rw [getElem?_ticks.2 ⟨value, hstored, (h _ hscanned).2, rfl⟩]
      rfl

end Contents

/-! ### Processed ranges -/

/-- The record of processed ranges in a pair. -/
def readIntervals (e : Entry) : Except CodecFault Legacy.ProcessedTickIntervalsPerEpoch :=
  Wire.decode Legacy.ProcessedTickIntervalsPerEpoch .processedTickIntervals e.2

namespace Contents

variable {archive : Contents} {epoch : UInt32} {e : Entry}

/-- A pair of the archive holds a record that names the epoch and lists some ranges of it. -/
structure ListsRanges (archive : Contents) (epoch : UInt32) (e : Entry)
    (p : Legacy.ProcessedTickIntervalsPerEpoch) : Prop where
  scanned : e ∈ archive.scan (.ofNamespace .processedTickIntervals)
  decoded : readIntervals e = .ok p
  epoch : p.epoch = epoch
  nonempty : p.intervals ≠ []

/-- What is known about an epoch by a pair, if anything is. -/
def entryOf (archive : Contents) (e : Entry) : Option EpochMetadata :=
  ((readIntervals e).toOption.filter (!·.intervals.isEmpty)).map (.ofRecord archive.ticks)

lemma entryOf_eq_some_iff {m : EpochMetadata} :
    archive.entryOf e = some m ↔
      ∃ p, readIntervals e = .ok p ∧ p.intervals ≠ [] ∧
        EpochMetadata.ofRecord archive.ticks p = m := by
  simp only [entryOf, Option.map_eq_some_iff, Option.filter_eq_some_iff, toOption_eq_some_iff,
    Bool.not_eq_true', List.isEmpty_eq_false_iff, and_assoc]

/-- A pair that something is known by lists ranges. -/
lemma entryOf_any_iff :
    (archive.entryOf e).any (·.epoch = epoch) = true ↔
      ∃ p, readIntervals e = .ok p ∧ p.epoch = epoch ∧ p.intervals ≠ [] := by
  simp only [Option.any_eq_true, entryOf_eq_some_iff, decide_eq_true_eq]
  constructor
  · rintro ⟨_, ⟨p, hread, hnonempty, rfl⟩, hepoch⟩
    exact ⟨p, hread, hepoch, hnonempty⟩
  · rintro ⟨p, hread, hepoch, hnonempty⟩
    exact ⟨_, ⟨p, hread, hnonempty, rfl⟩, hepoch⟩

/-- What is known if all pairs can be read. -/
def joined (archive : Contents) : StoreMetadata :=
  .ofList (((archive.scan (.ofNamespace .processedTickIntervals)).filterMap fun e =>
    (readIntervals e).toOption).filter (!·.intervals.isEmpty) |>.map (.ofRecord archive.ticks))

lemma joined_eq (archive : Contents) : archive.joined =
    .ofList ((archive.scan (.ofNamespace .processedTickIntervals)).filterMap archive.entryOf) := by
  rw [joined, List.filter_filterMap, List.map_filterMap]
  rfl

/-- Something is known about the epochs that ranges are listed of. -/
lemma exists_get?_joined :
    (∃ m, archive.joined.get? epoch = some m) ↔ ∃ e p, archive.ListsRanges epoch e p := by
  rw [← Option.isSome_iff_exists, joined_eq, StoreMetadata.get?_ofList, List.find?_isSome]
  simp only [List.mem_reverse, List.mem_filterMap, entryOf_eq_some_iff, decide_eq_true_eq]
  constructor
  · rintro ⟨_, ⟨e, hscanned, p, hread, hnonempty, rfl⟩, hepoch⟩
    exact ⟨e, p, hscanned, hread, hepoch, hnonempty⟩
  · rintro ⟨e, p, hscanned, hread, hepoch, hnonempty⟩
    exact ⟨_, ⟨e, hscanned, p, hread, hnonempty, rfl⟩, hepoch⟩

/-- What is known about an epoch is what the last pair says that lists ranges of it. -/
lemma get?_joined {m : EpochMetadata} : archive.joined.get? epoch = some m ↔
    ∃ e p, archive.ListsRanges epoch e p ∧
      (∀ e' p', archive.ListsRanges epoch e' p' → e' = e ∨ compare e'.1 e.1 = .lt) ∧
      EpochMetadata.ofRecord archive.ticks p = m := by
  have hasymm : ∀ e e' : Entry, compare e.1 e'.1 = .lt → ¬compare e'.1 e.1 = .lt := by
    intro e e' hlt hlt'
    have hswap : compare e.1 e'.1 = (compare e'.1 e.1).swap := Std.OrientedCmp.eq_swap
    rw [hswap, hlt'] at hlt
    cases hlt
  rw [joined_eq, StoreMetadata.get?_ofList, ← List.filterMap_reverse, List.find?_filterMap,
    Option.bind_eq_some_iff]
  simp only [find?_reverse_eq_some_iff hasymm (pairwise_scan archive _), entryOf_any_iff]
  constructor
  · rintro ⟨e, ⟨hscanned, ⟨p, hread, hepoch, hnonempty⟩, hlast⟩, hentry⟩
    obtain ⟨p', hread', -, hm⟩ := entryOf_eq_some_iff.1 hentry
    obtain rfl : p = p' := Except.ok.inj (hread.symm.trans hread')
    exact ⟨e, p, ⟨hscanned, hread, hepoch, hnonempty⟩,
      fun e' p' h => hlast e' h.scanned ⟨p', h.decoded, h.epoch, h.nonempty⟩, hm⟩
  · rintro ⟨e, p, h, hlast, hm⟩
    refine ⟨e, ⟨h.scanned, ⟨p, h.decoded, h.epoch, h.nonempty⟩, ?_⟩,
      entryOf_eq_some_iff.2 ⟨p, h.decoded, h.nonempty, hm⟩⟩
    rintro e' hscanned ⟨p', hread, hepoch, hnonempty⟩
    exact hlast e' p' ⟨hscanned, hread, hepoch, hnonempty⟩

end Contents

/-! ### The join -/

namespace Source

variable {archive : Contents} {fault : CodecFault}

lemma metadata_of_readable (hticks : archive.ReadableTicks)
    (hintervals : archive.Readable .processedTickIntervals readIntervals) :
    (ofContents archive).metadata = .ok archive.joined := by
  have hread : (ofContents archive).intervals = .ok _ := readAll_of_readable hintervals
  rw [metadata, lastTicks_eq_ok (readAll_of_readable (Contents.readableTicks_iff.1 hticks)), hread]
  rfl

lemma metadata_of_ticks
    (h : archive.FirstFault .lastProcessedTickPerEpoch readLastTick fault) :
    (ofContents archive).metadata =
      .error (.context "reading last processed tick per epoch" (.codec fault)) := by
  have hticks : (ofContents archive).lastTicks = .error (.codec fault) := by
    change (ofContents archive).readAll .lastProcessedTickPerEpoch readLastTick >>= _ = _
    rw [readAll_of_firstFault h]
    rfl
  rw [metadata, hticks]
  rfl

lemma metadata_of_intervals (hticks : archive.ReadableTicks)
    (h : archive.FirstFault .processedTickIntervals readIntervals fault) :
    (ofContents archive).metadata =
      .error (.context "reading processed tick intervals per epoch" (.codec fault)) := by
  have hread : (ofContents archive).intervals = .error (.codec fault) := readAll_of_firstFault h
  rw [metadata, lastTicks_eq_ok (readAll_of_readable (Contents.readableTicks_iff.1 hticks)), hread]
  rfl

/-- What becomes of reading the metadata. -/
lemma metadata_cases (archive : Contents) :
    (archive.ReadableTicks ∧ archive.Readable .processedTickIntervals readIntervals ∧
        (ofContents archive).metadata = .ok archive.joined) ∨
      (∃ fault, archive.FirstFault .lastProcessedTickPerEpoch readLastTick fault ∧
        (ofContents archive).metadata =
          .error (.context "reading last processed tick per epoch" (.codec fault))) ∨
      (archive.ReadableTicks ∧
        ∃ fault, archive.FirstFault .processedTickIntervals readIntervals fault ∧
          (ofContents archive).metadata =
            .error (.context "reading processed tick intervals per epoch" (.codec fault))) := by
  obtain hticks | ⟨fault, hfault⟩ :=
    archive.readable_or_firstFault .lastProcessedTickPerEpoch readLastTick
  · rw [← Contents.readableTicks_iff] at hticks
    obtain hintervals | ⟨fault, hfault⟩ :=
      archive.readable_or_firstFault .processedTickIntervals readIntervals
    · exact .inl ⟨hticks, hintervals, metadata_of_readable hticks hintervals⟩
    · exact .inr (.inr ⟨hticks, fault, hfault, metadata_of_intervals hticks hfault⟩)
  · exact .inr (.inl ⟨fault, hfault, metadata_of_ticks hfault⟩)

lemma eq_joined_of_ok {metadata : StoreMetadata}
    (h : (ofContents archive).metadata = .ok metadata) :
    archive.ReadableTicks ∧ archive.Readable .processedTickIntervals readIntervals ∧
      metadata = archive.joined := by
  obtain ⟨hticks, hintervals, hfound⟩ | ⟨_, -, hfound⟩ | ⟨-, _, -, hfound⟩ := metadata_cases archive
  · rw [hfound] at h
    exact ⟨hticks, hintervals, (Except.ok.inj h).symm⟩
  · rw [hfound] at h
    cases h
  · rw [hfound] at h
    cases h

end Source

/-- What is found when the metadata of an archive are read is the join of two of its indices. -/
structure Contents.JoinsIndices (archive : Contents) (found : Except Error StoreMetadata) :
    Prop where
  /-- Metadata are found if all pairs of both indices can be read. -/
  succeeds : (∃ metadata, found = .ok metadata) ↔
    archive.ReadableTicks ∧
      ∀ e ∈ archive.scan (.ofNamespace .processedTickIntervals), ∃ p, readIntervals e = .ok p
  /-- The epochs that are known are those that ranges are listed of. -/
  known : ∀ {metadata}, found = .ok metadata → ∀ epoch,
    (∃ m, metadata.get? epoch = some m) ↔ ∃ e p, archive.ListsRanges epoch e p
  /-- The ranges of an epoch are those of the last record that lists any, and its last tick is the
  one that is stored for it. -/
  entry : ∀ {metadata}, found = .ok metadata → ∀ epoch m, metadata.get? epoch = some m ↔
    ∃ e p, archive.ListsRanges epoch e p ∧
      (∀ e' p', archive.ListsRanges epoch e' p' → e' = e ∨ compare e'.1 e.1 = .lt) ∧
      m = ⟨epoch, p.ranges, archive.lastTick epoch⟩
  /-- The first last processed tick that cannot be read is reported, and if there is none, the first
  record of processed ranges that cannot be read. -/
  fails : ∀ err, found = .error err ↔
    (∃ fault, archive.FirstFault .lastProcessedTickPerEpoch readLastTick fault ∧
        err = .context "reading last processed tick per epoch" (.codec fault)) ∨
      archive.ReadableTicks ∧
        ∃ fault, archive.FirstFault .processedTickIntervals readIntervals fault ∧
          err = .context "reading processed tick intervals per epoch" (.codec fault)

/-- Whatever an archive holds, its metadata are the join of what it lists by epoch, or the first
fault in it. -/
theorem Contents.joinsIndices_metadata (archive : Contents) :
    archive.JoinsIndices (Source.ofContents archive).metadata where
  succeeds := by
    constructor
    · rintro ⟨metadata, h⟩
      obtain ⟨hticks, hintervals, -⟩ := Source.eq_joined_of_ok h
      exact ⟨hticks, hintervals⟩
    · rintro ⟨hticks, hintervals⟩
      exact ⟨_, Source.metadata_of_readable hticks hintervals⟩
  known := by
    intro metadata h epoch
    obtain ⟨-, -, rfl⟩ := Source.eq_joined_of_ok h
    exact exists_get?_joined
  entry := by
    intro metadata h epoch m
    obtain ⟨hticks, -, rfl⟩ := Source.eq_joined_of_ok h
    rw [get?_joined]
    refine exists_congr fun e => exists_congr fun p => and_congr_right fun hlists => ?_
    rw [EpochMetadata.ofRecord, hlists.epoch, getD_ticks hticks, eq_comm]
    rfl
  fails := by
    intro err
    constructor
    · intro h
      obtain ⟨-, -, hfound⟩ | ⟨fault, hfault, hfound⟩ | ⟨hticks, fault, hfault, hfound⟩ :=
        Source.metadata_cases archive
      · rw [hfound] at h
        cases h
      · rw [hfound] at h
        cases h
        exact .inl ⟨fault, hfault, rfl⟩
      · rw [hfound] at h
        cases h
        exact .inr ⟨hticks, fault, hfault, rfl⟩
    · rintro (⟨fault, hfault, rfl⟩ | ⟨hticks, fault, hfault, rfl⟩)
      · exact Source.metadata_of_ticks hfault
      · exact Source.metadata_of_intervals hticks hfault

end EpochSplit
