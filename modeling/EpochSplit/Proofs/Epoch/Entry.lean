import EpochSplit.Epoch.Entry
import EpochSplit.Proofs.Key.Codec
/-!
# The pairs of an epoch store

What the pairs of an epoch store are made of, where they can be made at all: tick data and votes
keep their key and hold the record converted, and the record of the votes on the last ticks holds
them under the numbers of their intervals (`IsNumbered`).
-/

namespace EpochSplit

/-! ### Tick data and votes -/

namespace EpochEntry

/-- The value of tick data in an epoch store, from their value in an archive. -/
def tickValue (stored : Bytes) : Except CodecFault Bytes :=
  (Wire.decode Legacy.TickData .tickData stored).map fun t => Wire.encode t.toCurrent

/-- The value of votes in an epoch store, from their value in an archive. -/
def quorumValue (stored : Bytes) : Except CodecFault Bytes :=
  (Wire.decode Legacy.QuorumTickData .quorumData stored).map fun q => Wire.encode q.reduced

/-- Tick data that are moved keep their key, which is that of a tick. -/
lemma exists_of_tickData {old entry : Entry} {record : Current.TickData}
    (h : tickData old = .ok (record, entry)) :
    ∃ tick t, old.1 = Key.word .tickData tick ∧
      Wire.decode Legacy.TickData .tickData old.2 = .ok t ∧ record = t.toCurrent ∧
      entry = (old.1, Wire.encode record) := by
  unfold tickData at h
  rcases htick : Key.decodeTick .tickData old.1 with fault | tick
  · rw [htick] at h
    cases h
  · rcases hrecord : Wire.decode Legacy.TickData .tickData old.2 with fault | t
    · rw [htick, hrecord] at h
      cases h
    · rw [htick, hrecord] at h
      cases h
      have hkey := Key.word_of_decodeTick rfl htick
      exact ⟨tick, t, hkey.symm, rfl, rfl, Prod.ext hkey rfl⟩

/-- Tick data under a tick that can be read are moved. -/
lemma tickData_word {tick : UInt32} {stored : Bytes} {t : Legacy.TickData}
    (h : Wire.decode Legacy.TickData .tickData stored = .ok t) :
    tickData (Key.word .tickData tick, stored) =
      .ok (t.toCurrent, (Key.word .tickData tick, Wire.encode t.toCurrent)) := by
  have hkey : Key.decodeTick .tickData (Key.word .tickData tick) = .ok tick :=
    Key.decodeTick_word rfl tick
  simp only [tickData, hkey, h, bind, Except.bind]
  rfl

lemma tickData_eq_ok {old entry : Entry} {record : Current.TickData}
    (h : tickData old = .ok (record, entry)) :
    (∃ tick, entry.1 = Key.word .tickData tick) ∧ entry.1 = old.1 ∧
      tickValue old.2 = .ok entry.2 := by
  obtain ⟨tick, t, hkey, hrecord, rfl, rfl⟩ := exists_of_tickData h
  exact ⟨⟨tick, hkey⟩, rfl, by rw [tickValue, hrecord]; rfl⟩

/-- Votes that are moved keep their key, which is that of a tick, and have a common part. -/
lemma exists_of_quorumData {old entry : Entry} {votes : Legacy.QuorumTickData}
    (h : quorumData old = .ok (votes, entry)) :
    ∃ tick, old.1 = Key.word .quorumData tick ∧
      Wire.decode Legacy.QuorumTickData .quorumData old.2 = .ok votes ∧
      votes.quorumTickStructure.isSome = true ∧ entry = (old.1, Wire.encode votes.reduced) := by
  unfold quorumData at h
  rcases htick : Key.decodeTick .quorumData old.1 with fault | tick
  · rw [htick] at h
    cases h
  · rcases hrecord : Wire.decode Legacy.QuorumTickData .quorumData old.2 with fault | q
    · rw [htick, hrecord] at h
      cases h
    · rw [htick, hrecord] at h
      simp only [bind, Except.bind] at h
      split at h
      · cases h
      · next hcommon =>
          cases h
          have hkey := Key.word_of_decodeTick rfl htick
          exact ⟨tick, hkey.symm, rfl, by simpa [Option.isSome_iff_ne_none] using hcommon,
            Prod.ext hkey rfl⟩

/-- Votes under a tick that can be read and have a common part are moved. -/
lemma quorumData_word {tick : UInt32} {stored : Bytes} {q : Legacy.QuorumTickData}
    (h : Wire.decode Legacy.QuorumTickData .quorumData stored = .ok q)
    (hcommon : q.quorumTickStructure.isNone = false) :
    quorumData (Key.word .quorumData tick, stored) =
      .ok (q, (Key.word .quorumData tick, Wire.encode q.reduced)) := by
  have hkey : Key.decodeTick .quorumData (Key.word .quorumData tick) = .ok tick :=
    Key.decodeTick_word rfl tick
  simp only [quorumData, hkey, h, hcommon, bind, Except.bind]
  rfl

lemma quorumData_eq_ok {old entry : Entry} {votes : Legacy.QuorumTickData}
    (h : quorumData old = .ok (votes, entry)) :
    (∃ tick, entry.1 = Key.word .quorumData tick) ∧ entry.1 = old.1 ∧
      quorumValue old.2 = .ok entry.2 := by
  obtain ⟨tick, hkey, hrecord, -, rfl⟩ := exists_of_quorumData h
  exact ⟨⟨tick, hkey⟩, rfl, by rw [quorumValue, hrecord]; rfl⟩

end EpochEntry

/-! ### The votes on the last ticks -/

/-- A record holds, under the numbers of intervals, just the votes that were selected for them. -/
structure IsNumbered (selected : Std.ExtTreeMap Nat Legacy.QuorumTickData)
    (record : Current.LastTickQuorumDataPerEpochIntervals) : Prop where
  small : ∀ i q, selected[i]? = some q → i < 2 ^ 31
  votes : ∀ i < 2 ^ 31, record.quorumDataPerInterval[Int32.ofNat i]? =
    selected[i]?.map (·.toCurrent)
  numbers : ∀ number ∈ record.quorumDataPerInterval, ∃ i < 2 ^ 31, number = Int32.ofNat i

/-- There is one record only for the votes that were selected. -/
lemma IsNumbered.unique {selected : Std.ExtTreeMap Nat Legacy.QuorumTickData}
    {record record' : Current.LastTickQuorumDataPerEpochIntervals} (h : IsNumbered selected record)
    (h' : IsNumbered selected record') : record = record' := by
  have hsame : record.quorumDataPerInterval = record'.quorumDataPerInterval := by
    refine Std.ExtTreeMap.ext_getElem? fun number => ?_
    by_cases hnumber : ∃ i < 2 ^ 31, number = Int32.ofNat i
    · obtain ⟨i, hi, rfl⟩ := hnumber
      rw [h.votes i hi, h'.votes i hi]
    · rw [Std.ExtTreeMap.getElem?_eq_none fun hmem => hnumber (h.numbers number hmem),
        Std.ExtTreeMap.getElem?_eq_none fun hmem => hnumber (h'.numbers number hmem)]
  cases record
  cases record'
  exact congrArg _ hsame

/-- Different intervals have different numbers. -/
lemma ofNat_inj_of_lt {i i' : Nat} (hi : i < 2 ^ 31) (hi' : i' < 2 ^ 31)
    (h : Int32.ofNat i = Int32.ofNat i') : i = i' := by
  have hint := congrArg Int32.toInt h
  rw [Int32.toInt_ofNat_of_lt hi, Int32.toInt_ofNat_of_lt hi'] at hint
  exact Int.ofNat.inj hint

namespace EpochEntry

/-- Enters the votes of an interval under its number. -/
def enter (entered : Std.ExtTreeMap Int32 Current.QuorumTickData)
    (p : Nat × Legacy.QuorumTickData) :
    Except CodecFault (Std.ExtTreeMap Int32 Current.QuorumTickData) :=
  if p.1 < 2 ^ 31 then .ok (entered.insert (Int32.ofNat p.1) p.2.toCurrent)
  else
    .error (.encode .lastTickQuorumDataPerEpochInterval
      s!"interval index {p.1} does not fit in 32 bits")

lemma lastTickQuorumData_eq (epoch : UInt32)
    (selected : Std.ExtTreeMap Nat Legacy.QuorumTickData) :
    lastTickQuorumData epoch selected = (selected.toList.foldlM enter ∅).map fun votes =>
      (Key.word .lastTickQuorumDataPerEpochInterval epoch,
        Wire.encode (⟨votes⟩ : Current.LastTickQuorumDataPerEpochIntervals)) := rfl

/-- If no interval is refused, the votes are entered one after the other. -/
lemma foldlM_enter_eq_ok {pairs : List (Nat × Legacy.QuorumTickData)}
    {before after : Std.ExtTreeMap Int32 Current.QuorumTickData}
    (h : pairs.foldlM enter before = .ok after) :
    (∀ p ∈ pairs, p.1 < 2 ^ 31) ∧
      after = before.insertMany (pairs.map fun p => (Int32.ofNat p.1, p.2.toCurrent)) := by
  induction pairs generalizing before with
  | nil =>
      cases h
      exact ⟨fun p hp => (List.not_mem_nil hp).elim, Std.ExtTreeMap.insertMany_nil.symm⟩
  | cons p pairs ih =>
      rw [List.foldlM_cons] at h
      by_cases hp : p.1 < 2 ^ 31
      · rw [enter, if_pos hp] at h
        obtain ⟨hall, hafter⟩ := ih h
        exact ⟨List.forall_mem_cons.2 ⟨hp, hall⟩, by
          rw [hafter, List.map_cons, Std.ExtTreeMap.insertMany_cons]⟩
      · rw [enter, if_neg hp] at h
        cases h

/-- Votes are entered if their intervals have numbers. -/
lemma exists_foldlM_enter {pairs : List (Nat × Legacy.QuorumTickData)}
    (h : ∀ p ∈ pairs, p.1 < 2 ^ 31) (before : Std.ExtTreeMap Int32 Current.QuorumTickData) :
    ∃ after, pairs.foldlM enter before = .ok after := by
  induction pairs generalizing before with
  | nil => exact ⟨before, rfl⟩
  | cons p pairs ih =>
      obtain ⟨hp, hpairs⟩ := List.forall_mem_cons.1 h
      rw [List.foldlM_cons, enter, if_pos hp]
      exact ih hpairs _

/-- A record is written for votes whose intervals have numbers. -/
lemma exists_lastTickQuorumData (epoch : UInt32)
    {selected : Std.ExtTreeMap Nat Legacy.QuorumTickData}
    (h : ∀ i q, selected[i]? = some q → i < 2 ^ 31) :
    ∃ entry, lastTickQuorumData epoch selected = .ok entry := by
  have hsmall : ∀ p ∈ selected.toList, p.1 < 2 ^ 31 := fun p hp =>
    h p.1 p.2 (Std.ExtTreeMap.mem_toList_iff_getElem?_eq_some.1 hp)
  obtain ⟨entered, hentered⟩ := exists_foldlM_enter hsmall ∅
  rw [lastTickQuorumData_eq, hentered]
  exact ⟨_, rfl⟩

/-- The record that is written for the votes of an epoch holds them under the numbers of their
intervals. -/
theorem lastTickQuorumData_eq_ok {epoch : UInt32} {entry : Entry}
    {selected : Std.ExtTreeMap Nat Legacy.QuorumTickData}
    (h : lastTickQuorumData epoch selected = .ok entry) :
    ∃ record, entry = (Key.word .lastTickQuorumDataPerEpochInterval epoch, Wire.encode record) ∧
      IsNumbered selected record := by
  rw [lastTickQuorumData_eq] at h
  rcases hentered : selected.toList.foldlM enter ∅ with fault | entered
  · rw [hentered] at h
    cases h
  · rw [hentered] at h
    cases h
    obtain ⟨hsmall, rfl⟩ := foldlM_enter_eq_ok hentered
    have hsmall' : ∀ i q, selected[i]? = some q → i < 2 ^ 31 := fun i q hq =>
      hsmall (i, q) (Std.ExtTreeMap.mem_toList_iff_getElem?_eq_some.2 hq)
    have hdistinct : (selected.toList.map fun p => (Int32.ofNat p.1, p.2.toCurrent)).Pairwise
        fun a b => ¬compare a.1 b.1 = .eq := by
      rw [List.pairwise_map]
      refine Std.ExtTreeMap.distinct_keys_toList.imp_of_mem fun {a b} ha hb hne heq => hne ?_
      rw [ofNat_inj_of_lt (hsmall a ha) (hsmall b hb) (Std.LawfulEqOrd.eq_of_compare heq)]
      exact Std.ReflCmp.compare_self
    refine ⟨_, rfl, hsmall', fun i hi => ?_, fun number hnumber => ?_⟩
    · cases hq : selected[i]? with
      | some q =>
          exact Std.ExtTreeMap.getElem?_insertMany_list_of_mem Std.ReflCmp.compare_self hdistinct
            (List.mem_map.2 ⟨(i, q), Std.ExtTreeMap.mem_toList_iff_getElem?_eq_some.2 hq, rfl⟩)
      | none =>
          -- no other interval has this number
          refine (Std.ExtTreeMap.getElem?_insertMany_list_of_contains_eq_false ?_).trans
            Std.ExtTreeMap.getElem?_empty
          rw [List.map_map, List.contains_eq_mem, decide_eq_false_iff_not, List.mem_map]
          rintro ⟨⟨i', q⟩, hmem, heq⟩
          obtain rfl : i' = i := ofNat_inj_of_lt (hsmall _ hmem) hi heq
          rw [Std.ExtTreeMap.mem_toList_iff_getElem?_eq_some, hq] at hmem
          cases hmem
    · rw [Std.ExtTreeMap.mem_insertMany_list] at hnumber
      obtain hempty | hnumber := hnumber
      · exact absurd hempty Std.ExtTreeMap.not_mem_empty
      · rw [List.map_map, List.contains_iff_mem, List.mem_map] at hnumber
        obtain ⟨p, hp, rfl⟩ := hnumber
        exact ⟨p.1, hsmall p hp, rfl⟩

end EpochEntry

end EpochSplit
