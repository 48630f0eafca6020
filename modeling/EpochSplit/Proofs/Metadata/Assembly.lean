import EpochSplit.Proofs.Epoch.Writes
/-!
# How metadata are assembled

The metadata of an archive are made of the records of processed ranges, which are read in the order
of their keys and filed under the epochs that they name themselves.  So what is known about an epoch
is what the last record that names it says (`get?_ofList`), whatever key that record is under.
-/

namespace EpochSplit

/-- The processed ranges that a record lists. -/
def Legacy.ProcessedTickIntervalsPerEpoch.ranges (p : Legacy.ProcessedTickIntervalsPerEpoch) :
    List TickRange :=
  p.intervals.map fun i => ⟨i.initialProcessedTick, i.lastProcessedTick⟩

/-! ### Last processed ticks -/

/-- The epoch and the tick in a pair of a last processed tick. -/
def readLastTick (e : Entry) : Except CodecFault (UInt32 × UInt32) := do
  let epoch ← Key.decodeEpoch .lastProcessedTickPerEpoch e.1
  return (epoch, ← Wire.decodeWord .lastProcessedTickPerEpoch e.2)

/-- The ticks that are listed for epochs. -/
def ticksByEpoch (pairs : List (UInt32 × UInt32)) : Std.ExtTreeMap UInt32 UInt32 :=
  pairs.foldl (fun ticks p => ticks.insert p.1 p.2) ∅

/-- Where an epoch is listed with one tick only, that tick is found. -/
lemma getElem?_ticksByEpoch {pairs : List (UInt32 × UInt32)} {epoch tick : UInt32}
    (honce : ∀ tick tick', (epoch, tick) ∈ pairs → (epoch, tick') ∈ pairs → tick = tick') :
    (ticksByEpoch pairs)[epoch]? = some tick ↔ (epoch, tick) ∈ pairs := by
  induction pairs using List.reverseRecOn with
  | nil => simp [ticksByEpoch]
  | append_singleton pairs p ih =>
      obtain ⟨epoch', tick'⟩ := p
      have hstep : ticksByEpoch (pairs ++ [(epoch', tick')]) =
          (ticksByEpoch pairs).insert epoch' tick' := by
        rw [ticksByEpoch, List.foldl_concat]
        rfl
      have hlast : (epoch', tick') ∈ pairs ++ [(epoch', tick')] :=
        List.mem_append_right _ List.mem_cons_self
      rw [hstep, Std.ExtTreeMap.getElem?_insert]
      by_cases hepoch : epoch' = epoch
      · subst hepoch
        rw [if_pos Std.ReflCmp.compare_self, Option.some.injEq]
        constructor
        · rintro rfl
          exact hlast
        · intro hmem
          exact honce _ _ hlast hmem
      · have hne : compare epoch' epoch ≠ .eq := fun heq =>
          hepoch (Std.LawfulEqOrd.eq_of_compare heq)
        have hother : (epoch, tick) ≠ (epoch', tick') := fun heq =>
          hepoch (Prod.mk.inj heq).1.symm
        rw [if_neg hne, ih fun _ _ h h' =>
          honce _ _ (List.mem_append_left _ h) (List.mem_append_left _ h')]
        simp [hother]

/-! ### Entries of a list -/

namespace StoreMetadata

/-- The last entry on an epoch is the one that counts. -/
theorem get?_ofList (ms : List EpochMetadata) (epoch : UInt32) :
    (ofList ms).get? epoch = ms.reverse.find? (·.epoch = epoch) := by
  induction ms using List.reverseRecOn with
  | nil => exact Std.ExtTreeMap.getElem?_empty
  | append_singleton ms m ih =>
      have hstep : ofList (ms ++ [m]) = (ofList ms).insert m := by
        rw [ofList, List.foldl_append]
        rfl
      rw [hstep, get?_insert, ih, List.reverse_append, List.reverse_singleton,
        List.singleton_append, List.find?_cons]
      by_cases hepoch : m.epoch = epoch
      · rw [if_pos hepoch, decide_eq_true hepoch]
      · rw [if_neg hepoch, decide_eq_false hepoch]

lemma mem_of_get?_ofList {ms : List EpochMetadata} {epoch : UInt32} {m : EpochMetadata}
    (h : (ofList ms).get? epoch = some m) : m ∈ ms ∧ m.epoch = epoch := by
  rw [get?_ofList] at h
  have hmem := List.mem_of_find?_eq_some h
  have hepoch := List.find?_some h
  exact ⟨List.mem_reverse.1 hmem, of_decide_eq_true hepoch⟩

end StoreMetadata

/-! ### Reading a namespace -/

namespace Contents

variable {α : Type}

/-- All pairs of the namespace can be read. -/
def Readable (archive : Contents) (ns : Namespace) (read : Entry → Except CodecFault α) : Prop :=
  ∀ e ∈ archive.scan (.ofNamespace ns), ∃ a, read e = .ok a

/-- The first pair of the namespace that cannot be read is at fault. -/
def FirstFault (archive : Contents) (ns : Namespace) (read : Entry → Except CodecFault α)
    (fault : CodecFault) : Prop :=
  ∃ before e after, archive.scan (.ofNamespace ns) = before ++ e :: after ∧
    (∀ e' ∈ before, ∃ a, read e' = .ok a) ∧ read e = .error fault

lemma readable_or_firstFault (archive : Contents) (ns : Namespace)
    (read : Entry → Except CodecFault α) :
    archive.Readable ns read ∨ ∃ fault, archive.FirstFault ns read fault := by
  unfold Readable FirstFault
  generalize archive.scan (.ofNamespace ns) = pairs
  induction pairs with
  | nil => exact .inl (List.forall_mem_nil _)
  | cons e pairs ih =>
      rcases hread : read e with fault | a
      · exact .inr ⟨fault, [], e, pairs, rfl, List.forall_mem_nil _, hread⟩
      · obtain hall | ⟨fault, before, e', after, rfl, hbefore, hfault⟩ := ih
        · exact .inl (List.forall_mem_cons.2 ⟨⟨a, hread⟩, hall⟩)
        · exact .inr ⟨fault, e :: before, e', after, rfl,
            List.forall_mem_cons.2 ⟨⟨a, hread⟩, hbefore⟩, hfault⟩

end Contents

/-! ### Records of an archive -/

namespace Source

variable {s : Source}

/-- What is read in a namespace is read in its pairs, in the order of their keys. -/
lemma readAll_eq_ok {α : Type} {ns : Namespace} {read : Entry → Except CodecFault α} {as : List α}
    (h : s.readAll ns read = .ok as) :
    (s.items (KeyRange.ofNamespace ns)).map
      (fun item => item.bind fun e => (read e).mapError .codec) = as.map .ok := by
  refine eq_map_of_mapM_id ?_
  rw [List.mapM_map]
  exact h

lemma mem_of_readAll {α : Type} {ns : Namespace} {read : Entry → Except CodecFault α} {as : List α}
    (h : s.readAll ns read = .ok as) {a : α} :
    a ∈ as ↔ ∃ old, .ok old ∈ s.items (KeyRange.ofNamespace ns) ∧ read old = .ok a := by
  rw [← ok_mem_bind, readAll_eq_ok h, List.mem_map]
  constructor
  · intro ha
    exact ⟨a, ha, rfl⟩
  · rintro ⟨a', ha', heq⟩
    rwa [← Except.ok.inj heq]

section Archive

variable {α : Type} {archive : Contents} {ns : Namespace} {read : Entry → Except CodecFault α}

/-- Where each pair of a namespace can be read, all of them are read. -/
lemma readAll_of_readable (h : archive.Readable ns read) :
    (ofContents archive).readAll ns read =
      .ok ((archive.scan (.ofNamespace ns)).filterMap fun e => (read e).toOption) := by
  unfold Contents.Readable at h
  rw [readAll, items_ofContents, List.mapM_map]
  generalize archive.scan (KeyRange.ofNamespace ns) = pairs at h
  induction pairs with
  | nil => rfl
  | cons e pairs ih =>
      obtain ⟨⟨a, ha⟩, hpairs⟩ := List.forall_mem_cons.1 h
      rw [List.mapM_cons, ih hpairs, List.filterMap_cons_some (b := a) (by rw [ha]; rfl)]
      simp only [Function.comp_apply, Except.bind, ha]
      rfl

/-- Otherwise the first fault is reported. -/
lemma readAll_of_firstFault {fault : CodecFault} (h : archive.FirstFault ns read fault) :
    (ofContents archive).readAll ns read = .error (.codec fault) := by
  obtain ⟨before, e, after, hscan, hbefore, hfault⟩ := h
  rw [readAll, items_ofContents, List.mapM_map, hscan]
  clear hscan
  induction before with
  | nil =>
      rw [List.nil_append, List.mapM_cons]
      simp only [Function.comp_apply, Except.bind, hfault]
      rfl
  | cons e' before ih =>
      obtain ⟨⟨a, ha⟩, hbefore⟩ := List.forall_mem_cons.1 hbefore
      rw [List.cons_append, List.mapM_cons, ih hbefore]
      simp only [Function.comp_apply, Except.bind, ha]
      rfl

end Archive

lemma inContext_eq_ok {α : Type} {doing : String} {found : Except Error α} {a : α}
    (h : Error.inContext doing found = .ok a) : found = .ok a := by
  cases found with
  | error e => cases h
  | ok a' => exact h

lemma lastTicks_eq_ok {pairs : List (UInt32 × UInt32)}
    (h : s.readAll .lastProcessedTickPerEpoch readLastTick = .ok pairs) :
    s.lastTicks = .ok (ticksByEpoch pairs) := by
  have hticks : s.lastTicks =
      s.readAll .lastProcessedTickPerEpoch readLastTick >>= fun pairs => .ok (ticksByEpoch pairs) :=
    rfl
  rw [hticks, h]
  rfl

/-- The metadata of an archive are made of its records of processed ranges. -/
theorem metadata_eq_ok {metadata : StoreMetadata} (h : s.metadata = .ok metadata) :
    ∃ lastTicks records, s.lastTicks = .ok lastTicks ∧ s.intervals = .ok records ∧
      metadata = .ofList ((records.filter (!·.intervals.isEmpty)).map
        (EpochMetadata.ofRecord lastTicks)) := by
  unfold Source.metadata at h
  rcases hticks : Error.inContext "reading last processed tick per epoch" s.lastTicks with
    e | lastTicks
  · rw [hticks] at h
    cases h
  · rcases hrecords : Error.inContext "reading processed tick intervals per epoch" s.intervals with
      e | records
    · rw [hticks, hrecords] at h
      cases h
    · rw [hticks, hrecords] at h
      cases h
      exact ⟨lastTicks, records, inContext_eq_ok hticks, inContext_eq_ok hrecords, rfl⟩

/-- What is known about an epoch comes from a record that names the epoch. -/
theorem exists_of_get?_metadata {metadata : StoreMetadata} (h : s.metadata = .ok metadata)
    {epoch : UInt32} {m : EpochMetadata} (hm : metadata.get? epoch = some m) :
    ∃ old p, .ok old ∈ s.items (KeyRange.ofNamespace .processedTickIntervals) ∧
      Wire.decode Legacy.ProcessedTickIntervalsPerEpoch .processedTickIntervals old.2 = .ok p ∧
      p.epoch = epoch ∧ p.intervals ≠ [] ∧ m.ranges = p.ranges := by
  obtain ⟨lastTicks, records, -, hrecords, rfl⟩ := metadata_eq_ok h
  obtain ⟨hmem, hepoch⟩ := StoreMetadata.mem_of_get?_ofList hm
  obtain ⟨p, hp, rfl⟩ := List.mem_map.1 hmem
  obtain ⟨hp, hnonempty⟩ := List.mem_filter.1 hp
  obtain ⟨old, hold, hdecode⟩ := (mem_of_readAll hrecords).1 hp
  refine ⟨old, p, hold, hdecode, hepoch, ?_, rfl⟩
  intro hnil
  rw [hnil] at hnonempty
  cases hnonempty

end Source

end EpochSplit
