import EpochSplit.Disk.Store
import EpochSplit.Store.Memory
import Mathlib.Tactic.Common
/-!
# Scans

A scan shows a visitor the pairs of a store whose key lies in a range: all of them and no others, in
ascending order, up to the first at which the visitor fails.  Stores find these pairs by asking an
ordered map for what lies between two bounds, and they ask only where the bounds are in order.

Stores in memory keep to this for all ranges (`scans_pairsInRange`).  Stores on disk do so but for
the ranges that begin with the empty key: these they refuse, though no pair of theirs is under that
key.
-/

namespace EpochSplit

/-! ### Visitors -/

namespace Source

variable {α : Type} {visit : Entry → α → Except Error Unit × α}

/-- A visitor is called with the pairs of a list one after the other.  All calls succeed, or the
last one fails and no other. -/
inductive Visits (visit : Entry → α → Except Error Unit × α) :
    List Entry → α → Except Error Unit → α → Prop
  | nil (a : α) : Visits visit [] a (.ok ()) a
  | cons {e : Entry} {shown : List Entry} {a a₁ a₂ : α} {outcome : Except Error Unit}
      (succeeds : visit e a = (.ok (), a₁)) (later : Visits visit shown a₁ outcome a₂) :
      Visits visit (e :: shown) a outcome a₂
  | fails {e : Entry} {a a₁ : α} {err : Error} (fails : visit e a = (.error err, a₁)) :
      Visits visit [e] a (.error err) a₁

/-- A visitor that never fails makes no scan fail. -/
lemma Visits.eq_ok (h : ∀ e a, (visit e a).1 = .ok ()) {shown : List Entry} {a a' : α}
    {outcome : Except Error Unit} (hvisits : Visits visit shown a outcome a') :
    outcome = .ok () := by
  induction hvisits with
  | nil a => rfl
  | cons _ _ ih => exact ih
  | @fails e a _ _ hfails =>
      have hok := h e a
      rw [hfails] at hok
      cases hok

/-- Pairs that are handed to a visitor are shown to it up to the first at which it fails. -/
lemma exists_visits (visit : Entry → α → Except Error Unit × α) (pairs : List Entry) (a : α) :
    ∃ shown rest, pairs = shown ++ rest ∧
      Visits visit shown a (visitAll visit pairs a).1 (visitAll visit pairs a).2 ∧
      ((visitAll visit pairs a).1 = .ok () → rest = []) := by
  induction pairs generalizing a with
  | nil => exact ⟨[], [], rfl, .nil a, fun _ => rfl⟩
  | cons e pairs ih =>
      rcases hcall : visit e a with ⟨err | ⟨⟩, a₁⟩
      · have hstop : visitAll visit (e :: pairs) a = (.error err, a₁) := by
          rw [visitAll, hcall]
        rw [hstop]
        exact ⟨[e], pairs, rfl, .fails hcall, fun hok => nomatch hok⟩
      · have hnext : visitAll visit (e :: pairs) a = visitAll visit pairs a₁ := by
          rw [visitAll, hcall]
        obtain ⟨shown, rest, hpairs, hvisits, hall⟩ := ih a₁
        rw [hnext]
        exact ⟨e :: shown, rest, congrArg (e :: ·) hpairs, .cons hcall hvisits, hall⟩

/-! ### What a scan promises -/

/-- A scan of a range shows the given pairs, which are those that the contents hold in the range. -/
structure Scans (s : Source) (contents : Contents) (r : KeyRange) (pairs : List Entry) : Prop where
  /-- The pairs are those whose key lies in the range, -/
  mem : ∀ e, e ∈ pairs ↔ contents[e.1]? = some e.2 ∧ r.contains e.1 = true
  /-- in ascending order, so that each of them is there once. -/
  ascending : pairs.Pairwise fun e e' => compare e.1 e'.1 = .lt
  /-- A visitor is shown them in this order, up to the first at which it fails, and the scan ends as
  its last call did. -/
  shows : ∀ {α : Type} (visit : Entry → α → Except Error Unit × α) (a : α),
    ∃ shown rest, pairs = shown ++ rest ∧
      Visits visit shown a (s.visit r visit a).1 (s.visit r visit a).2 ∧
      ((s.visit r visit a).1 = .ok () → rest = [])
  /-- It is not called at all if the bounds leave no room for a key. -/
  vacant : r.isEmpty = true → ∀ {α : Type} (visit : Entry → α → Except Error Unit × α) (a : α),
    s.visit r visit a = (.ok (), a)

lemma visit_of_scan {s : Source} {r : KeyRange} {pairs : List Entry} (h : s.scan r = .ok pairs)
    (visit : Entry → α → Except Error Unit × α) (a : α) :
    s.visit r visit a = visitAll visit pairs a := by
  rw [Source.visit, h]

lemma scans_of_scan {s : Source} {c : Contents} {r : KeyRange} (h : s.scan r = .ok (c.scan r)) :
    s.Scans c r (c.scan r) where
  mem _ := by rw [Contents.mem_scan, Std.ExtTreeMap.get?_eq_getElem?]
  ascending := c.pairwise_scan r
  shows visit a := by
    rw [visit_of_scan h]
    exact exists_visits visit _ a
  vacant hempty _ visit a := by
    rw [visit_of_scan h, Contents.scan, KeyRange.ask_of_isEmpty hempty]
    rfl

end Source

/-- What lies in a range is found by a query of the map, which is asked only if the range has room
for a key; then its bounds are in order. -/
structure Contents.AsksInOrder (c : Contents) (r : KeyRange) : Prop where
  scan : c.scan r = r.ask [] c.between
  count : c.count r = r.ask 0 fun lower upper h => (c.between lower upper h).length
  /-- Whatever the query would do, it is not asked about a range without room. -/
  unasked : r.isEmpty = true → ∀ {α : Type} (vacant : α)
    (query : (lower upper : Bytes) → (compare lower upper).isLE = true → α),
    r.ask vacant query = vacant
  ordered : r.isEmpty = false → compare r.lower r.upper = .lt

lemma Contents.asksInOrder (c : Contents) (r : KeyRange) : c.AsksInOrder r where
  scan := rfl
  count := rfl
  unasked hempty _ := KeyRange.ask_of_isEmpty hempty
  ordered := KeyRange.isEmpty_eq_false_iff.1

namespace Disk

lemma scan_of_lower {d : Disk} {p : Place} {r : KeyRange} (h : r.isEmpty = true ∨ r.lower ≠ []) :
    d.scan p r = .ok ((d.held p).scan r) := by
  cases hempty : r.isEmpty with
  | true => rw [scan, Contents.scan, KeyRange.ask_of_isEmpty hempty, KeyRange.ask_of_isEmpty hempty]
  | false =>
      have hlower : r.lower.isEmpty = false :=
        List.isEmpty_eq_false_iff.2 (h.resolve_left (Bool.eq_false_iff.1 hempty))
      have hroom := KeyRange.isEmpty_eq_false_iff.1 hempty
      rw [scan, Contents.scan, KeyRange.ask_of_lt hroom, KeyRange.ask_of_lt hroom, hlower,
        if_neg Bool.false_ne_true]

lemma scan_of_emptyKey {d : Disk} {p : Place} {r : KeyRange} (hempty : r.isEmpty = false)
    (hlower : r.lower = []) : d.scan p r = .error (.iteration Database.badKey) := by
  rw [scan, KeyRange.ask_of_lt (KeyRange.isEmpty_eq_false_iff.1 hempty),
    if_pos (List.isEmpty_iff.2 hlower)]

/-- Scans keep to what they promise just for the ranges that have no room or begin with some
byte. -/
lemma scans_iff {d : Disk} {p : Place} {r : KeyRange} :
    (∃ pairs, (source p d).Scans (d.held p) r pairs) ↔ r.isEmpty = true ∨ r.lower ≠ [] := by
  constructor
  · rintro ⟨pairs, h⟩
    by_contra hnot
    obtain ⟨hempty, hlower⟩ := not_or.1 hnot
    -- the scan fails although this visitor never does
    obtain ⟨shown, rest, -, hvisits, -⟩ := h.shows (fun _ _ => (.ok (), ())) ()
    have hok := hvisits.eq_ok fun _ _ => rfl
    have hscan : (source p d).scan r = .error (.iteration Database.badKey) :=
      scan_of_emptyKey (Bool.eq_false_iff.2 hempty) (not_not.1 hlower)
    rw [Source.visit, hscan] at hok
    cases hok
  · exact fun h => ⟨_, Source.scans_of_scan (scan_of_lower h)⟩

end Disk

/-- A scan of a store in memory shows a visitor the pairs whose key lies in the range, in ascending
order, up to the first at which the visitor fails, and so many pairs are counted in the range; the
map is asked for what lies between bounds in order only.  A scan of a store on disk does so just if
the range has no room or does not begin with the empty key: any other fails and no pair is shown. -/
theorem Source.scans_pairsInRange (store : MemoryStore) (d : Disk) (p : Place) (r : KeyRange) :
    (store.contents.AsksInOrder r ∧ ∃ pairs, store.source.Scans store.contents r pairs ∧
        store.contents.count r = pairs.length) ∧
      ((∃ pairs, (Disk.source p d).Scans (d.held p) r pairs) ↔ r.isEmpty = true ∨ r.lower ≠ []) ∧
      (r.isEmpty = false → r.lower = [] →
        ∀ {α : Type} (visit : Entry → α → Except Error Unit × α) (a : α),
          (Disk.source p d).visit r visit a =
            (.error (.store (.iteration Database.badKey)), a)) := by
  refine ⟨⟨store.contents.asksInOrder r, _, scans_of_scan rfl, (store.contents.length_scan r).symm⟩,
    Disk.scans_iff, fun hempty hlower α visit a => ?_⟩
  have hscan : (Disk.source p d).scan r = .error (.iteration Database.badKey) :=
    Disk.scan_of_emptyKey hempty hlower
  rw [Source.visit, hscan]

namespace Disk

/-- A new store that took one pair. -/
def writtenOnce : Except StoreFault Unit × Disk :=
  commit ["s"] [([1], [10])] (({} : Disk).create "s" 0x100000).2

/-- The pair is shown by a scan that begins with its key, and not by one that begins with the empty
key. -/
theorem scans_pairsInRange_once :
    (∃ pairs, (source ["s"] writtenOnce.2).Scans (writtenOnce.2.held ["s"]) ⟨[1], [0xFF]⟩ pairs ∧
        ([1], [10]) ∈ pairs) ∧
      (source ["s"] writtenOnce.2).visit ⟨[], [0xFF]⟩ (fun e shown => (.ok (), shown ++ [e])) [] =
        (.error (.store (.iteration Database.badKey)), []) := by
  obtain ⟨-, hscans, -⟩ := Source.scans_pairsInRange {} writtenOnce.2 ["s"] ⟨[1], [0xFF]⟩
  obtain ⟨-, -, hfails⟩ := Source.scans_pairsInRange {} writtenOnce.2 ["s"] ⟨[], [0xFF]⟩
  obtain ⟨pairs, h⟩ := hscans.2 (.inr (by decide))
  refine ⟨⟨pairs, h, (h.mem _).2 ⟨?_, by decide⟩⟩, hfails rfl rfl _ _⟩
  decide +kernel

/-- The pair lies in a range that begins with the empty key, and yet no scan shows it. -/
theorem not_scans_fromEmptyKey :
    ¬∃ pairs, (source ["s"] writtenOnce.2).Scans (writtenOnce.2.held ["s"]) ⟨[], [0xFF]⟩ pairs := by
  rw [scans_iff]
  decide

end Disk

end EpochSplit
