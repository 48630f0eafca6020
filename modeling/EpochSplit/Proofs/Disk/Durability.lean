import EpochSplit.Proofs.Disk.Opening
import Mathlib.Data.Prod.Basic
/-!
# What a closed store keeps

A compacted copy holds what was committed before the compaction, and closing puts it in the place of
the database.  So a store that is opened again shows the batches up to the last compaction, and all
batches only if nothing was committed after that (`reopened`).
-/

namespace EpochSplit

/-! ### Calls to a store -/

/-- A call to a store between opening and closing. -/
inductive StoreCall where
  | commit (durable : Bool) (batch : List Entry)
  | compact
deriving DecidableEq

namespace StoreCall

/-- The pairs that a call writes. -/
def entries : StoreCall → List Entry
  | commit _ batch => batch
  | compact => []

/-- What the database holds after a call, and the copy that is to take its place. -/
def note (s : Contents × Option Contents) : StoreCall → Contents × Option Contents
  | commit _ batch => (s.1.overlay batch, s.2)
  | compact => (s.1, some s.1)

/-- Calls write the pairs of their batches into the database. -/
lemma fst_foldl_note (calls : List StoreCall) (s : Contents × Option Contents) :
    (calls.foldl note s).1 = s.1.overlay (calls.flatMap entries) := by
  induction calls generalizing s with
  | nil => rfl
  | cons call calls ih =>
      rw [List.foldl_cons, ih, List.flatMap_cons, Contents.overlay_append]
      cases call <;> rfl

/-- Without a compaction there is no other copy than before. -/
lemma snd_foldl_note {calls : List StoreCall} (h : ∀ call ∈ calls, call ≠ compact)
    (s : Contents × Option Contents) : (calls.foldl note s).2 = s.2 := by
  induction calls generalizing s with
  | nil => rfl
  | cons call calls ih =>
      obtain ⟨hcall, hcalls⟩ := List.forall_mem_cons.1 h
      rw [List.foldl_cons, ih hcalls]
      cases call with
      | commit durable batch => rfl
      | compact => exact absurd rfl hcall

/-- The copy is that of the last compaction. -/
lemma snd_foldl_note_compact (before : List StoreCall) {after : List StoreCall}
    (h : ∀ call ∈ after, call ≠ compact) (s : Contents × Option Contents) :
    ((before ++ compact :: after).foldl note s).2 =
      some (s.1.overlay (before.flatMap entries)) := by
  rw [List.foldl_append, List.foldl_cons, snd_foldl_note h, ← fst_foldl_note]
  rfl

end StoreCall

/-- Makes a call. -/
def Target.call {σ : Type} (t : Target σ) : StoreCall → σ → Except StoreFault Unit × σ
  | .commit durable batch => t.commit durable batch
  | .compact => t.compact

/-- Makes calls one after the other, up to the first that fails. -/
def Target.callAll {σ : Type} (t : Target σ) : List StoreCall → σ → Except StoreFault Unit × σ
  | [], world => (.ok (), world)
  | call :: calls, world =>
      match t.call call world with
      | (.ok (), world) => t.callAll calls world
      | failed => failed

namespace Disk

variable {d₀ d d' closed : Disk} {p : Place} {o : OpenStore} {calls : List StoreCall}
  {s : Contents × Option Contents}

/-! ### What calls leave behind -/

lemma Live.call {call : StoreCall} (h : Live d p o s.1 s.2)
    (hcall : (target p).call call d = (.ok (), d')) :
    Live d' p o (call.note s).1 (call.note s).2 := by
  cases call with
  | commit durable batch => exact (h.commit hcall).1
  | compact => exact (h.compact hcall).1

theorem Live.callAll (h : Live d p o s.1 s.2)
    (hcalls : (target p).callAll calls d = (.ok (), d')) :
    Live d' p o (calls.foldl StoreCall.note s).1 (calls.foldl StoreCall.note s).2 := by
  induction calls generalizing d s with
  | nil =>
      cases hcalls
      exact h
  | cons call calls ih =>
      rw [Target.callAll] at hcalls
      split at hcalls
      · next d₁ hcall => exact ih (h.call hcall) hcalls
      · next hfailed => exact absurd hcalls (hfailed d')

/-- A store was created where none was open, called and closed, all with success. -/
structure ClosedAfter (calls : List StoreCall) (d₀ : Disk) (path : String) (p : Place)
    (closed : Disk) : Prop where
  sound : d₀.Sound
  free : d₀.opened[p]? = none
  run : ∃ mapSize d d', d₀.create path mapSize = (.ok p, d) ∧
    (target p).callAll calls d = (.ok (), d') ∧ (target p).close d' = (.ok (), closed)

variable {path : String} {readSize : Nat}

/-- A store that was written, compacted and closed shows when it is opened again what its directory
held at first overlaid with the batches: all of them if it was never compacted, and else those that
were committed before the last compaction. -/
theorem reopened (h : ClosedAfter calls d₀ path p closed) (haligned : readSize % pageSize = 0)
    (haddressed : (closed.databaseAt p).sizeFor readSize < addressLimit) :
    ∃ shown, closed.openReadOnly path readSize = (.ok p, shown) ∧
      ((∀ call ∈ calls, call ≠ .compact) →
        shown.held p = (d₀.stored p).overlay (calls.flatMap StoreCall.entries)) ∧
      ∀ before after, calls = before ++ .compact :: after → (∀ call ∈ after, call ≠ .compact) →
        shown.held p = (d₀.stored p).overlay (before.flatMap StoreCall.entries) := by
  obtain ⟨mapSize, d, d', hcreate, hcalls, hclose⟩ := h.run
  obtain ⟨o, rfl, hlive, -⟩ := Live.of_create h.sound h.free hcreate
  have hwritten : Live d' p o _ _ := Live.callAll (s := (d₀.stored p, none)) hlive hcalls
  obtain ⟨hrests, -⟩ := hwritten.close hclose
  obtain ⟨shown, hopen, hheld⟩ := hrests.openReadOnly haligned haddressed
  refine ⟨shown, hopen, fun hnever => ?_, fun before after hsplit hlast => ?_⟩
  · rw [hheld, StoreCall.snd_foldl_note hnever, StoreCall.fst_foldl_note]
    rfl
  · rw [hheld, hsplit, StoreCall.snd_foldl_note_compact before hlast]
    rfl

/-! ### A commit after a compaction -/

/-- A store keeps every batch that it took, wherever it was compacted between them. -/
def KeepsBatches : Prop :=
  ∀ {calls d₀ path p closed readSize}, ClosedAfter calls d₀ path p closed →
    readSize % pageSize = 0 → (closed.databaseAt p).sizeFor readSize < addressLimit →
    ∃ shown, closed.openReadOnly path readSize = (.ok p, shown) ∧
      shown.held p = (d₀.stored p).overlay (calls.flatMap StoreCall.entries)

/-- A compaction between two batches. -/
def batchesAround : List StoreCall :=
  [.commit true [([1], [10])], .compact, .commit true [([2], [20])]]

/-- A new store. -/
def createdAround : Except StoreFault Place × Disk := ({} : Disk).create "s" 0x100000

/-- The store after the two batches. -/
def writtenAround : Except StoreFault Unit × Disk :=
  (target ["s"]).callAll batchesAround createdAround.2

/-- The disk once the store is closed. -/
def closedAround : Except StoreFault Unit × Disk := (target ["s"]).close writtenAround.2

lemma closedAfter_around : ClosedAfter batchesAround {} "s" ["s"] closedAround.2 where
  sound := sound_empty
  free := rfl
  run := by
    have hcreate : createdAround = (.ok ["s"], createdAround.2) :=
      Prod.fst_eq_iff.1 (by decide +kernel)
    have hcalls : writtenAround = (.ok (), writtenAround.2) := Prod.fst_eq_iff.1 (by decide +kernel)
    have hclose : closedAround = (.ok (), closedAround.2) := Prod.fst_eq_iff.1 (by decide +kernel)
    exact ⟨0x100000, createdAround.2, writtenAround.2, hcreate, hcalls, hclose⟩

/-- The store shows the batch before the compaction, and that batch only. -/
theorem reopened_around :
    ∃ shown, closedAround.2.openReadOnly "s" 0 = (.ok ["s"], shown) ∧
      shown.held ["s"] = (Disk.stored {} ["s"]).overlay [([1], [10])] := by
  obtain ⟨shown, hopen, -, hheld⟩ :=
    reopened closedAfter_around (rfl : 0 % pageSize = 0) (by decide +kernel)
  exact ⟨shown, hopen,
    hheld [.commit true [([1], [10])]] [.commit true [([2], [20])]] rfl (by decide)⟩

/-- A batch that is committed after a compaction is lost, though the commit succeeds. -/
theorem not_keepsBatches : ¬KeepsBatches := by
  intro hkeeps
  obtain ⟨shown, hopen, hheld⟩ :=
    hkeeps closedAfter_around (rfl : 0 % pageSize = 0) (by decide +kernel)
  have hlost : ((closedAround.2.openReadOnly "s" 0).2.held ["s"])[([2] : Bytes)]? = none := by
    decide +kernel
  have hkept : ((Disk.stored {} ["s"]).overlay (batchesAround.flatMap StoreCall.entries))[
      ([2] : Bytes)]? = some [20] := by
    decide +kernel
  rw [hopen, hheld, hkept] at hlost
  cases hlost

end Disk

end EpochSplit
