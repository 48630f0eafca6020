import EpochSplit.Proofs.Batch.Schedule
import EpochSplit.Store.Memory
import Mathlib.Algebra.Order.Floor.Div
/-!
# Staging records

While records are staged one after the other, whole batches of them are committed and the others
wait, fewer than a batch (`Staged`).  A call of `stage` keeps this up, or it fails for one of two
reasons: the target refused a batch, which is then still staged, or the run was cancelled, and then
nothing is staged any more (`stages_of_staged`).  What was written and how often can be read off the
number of the calls (`keepsBatches`).
-/

namespace EpochSplit

variable {σ : Type}

namespace Channel

/-- The number of records that make up a whole batch. -/
def capacity (c : Channel σ) : Nat := max c.limit 1

lemma capacity_pos (c : Channel σ) : 0 < c.capacity := Nat.le_max_right c.limit 1

/-! ### Commits -/

/-- Batches are committed one after the other, and each of them is accepted. -/
inductive Commits (c : Channel σ) (start : σ) : List (List Entry) → σ → Prop
  | none : Commits c start [] start
  | next {batches : List (List Entry)} {batch : List Entry} {world world' : σ}
      (before : Commits c start batches world)
      (accepted : c.target.commit c.durable batch world = (.ok (), world')) :
      Commits c start (batches ++ [batch]) world'

/-- Batches that are accepted are laid over what the target held. -/
lemma Commits.view {c : Channel σ} {held : σ → Contents}
    (ht : c.target.Tracks held Contents.overlay) {batches : List (List Entry)} {start world : σ}
    (h : c.Commits start batches world) :
    held world = (held start).overlay batches.flatten := by
  induction h with
  | none => rfl
  | @next batches batch world world' before accepted ih =>
      rw [ht.commit_ok accepted, ih, List.flatten_concat, Contents.overlay_append]

/-- A batch was refused: it is still staged, and nothing else has changed but what the target did
to the world. -/
structure Refused (c : Channel σ) (fault : StoreFault) (batch : Array Entry) (b b' : Batch σ) :
    Prop where
  commit : c.target.commit c.durable batch.toList b.world = (.error fault, b'.world)
  staged : b'.staged = batch
  written : b'.written = b.written
  flushes : b'.flushes = b.flushes

/-- The error that reports a refused batch. -/
def refusal (c : Channel σ) (fault : StoreFault) : Error :=
  .context s!"committing {c.label} batch" (.store fault)

/-! ### One call -/

/-- After `pairs` were staged: `batches` were committed, all of them whole, and the pairs that are
left over are staged. -/
structure Staged (c : Channel σ) (start : σ) (pairs : List Entry) (batches : List (List Entry))
    (b : Batch σ) : Prop where
  whole : ∀ batch ∈ batches, batch.length = c.capacity
  commits : c.Commits start batches b.world
  split : pairs = batches.flatten ++ b.staged.toList
  room : b.staged.size < c.capacity
  written : b.written = batches.flatten.length
  flushes : b.flushes = batches.length

/-- What a call of `stage` comes to after `pairs` were staged. -/
inductive Stages (c : Channel σ) (start : σ) (pairs : List Entry) (b : Batch σ) (e : Entry) :
    Except Error Unit × Batch σ → Prop
  | staged {batches : List (List Entry)} {b' : Batch σ}
      (after : c.Staged start (pairs ++ [e]) batches b') : Stages c start pairs b e (.ok (), b')
  | refused {fault : StoreFault} {b' : Batch σ} (full : b.staged.size + 1 = c.capacity)
      (after : c.Refused fault (b.staged.push e) b b') :
      Stages c start pairs b e (.error (c.refusal fault), b')
  | cancelled {batches : List (List Entry)} {b' : Batch σ}
      (after : c.Staged start (pairs ++ [e]) batches b') (empty : b'.staged = #[])
      (noticed : c.cancelled b'.world = true) :
      Stages c start pairs b e (.error (.run (.cancelled b'.written)), b')

variable {c : Channel σ} {start : σ} {pairs : List Entry} {batches : List (List Entry)}
  {b b' : Batch σ} {e : Entry}

lemma staged_nil (c : Channel σ) (start : σ) : c.Staged start [] [] { world := start } where
  whole := List.forall_mem_nil _
  commits := .none
  split := rfl
  room := c.capacity_pos
  written := rfl
  flushes := rfl

/-- A pair that leaves room waits. -/
lemma Staged.push (h : c.Staged start pairs batches b) (hroom : b.staged.size + 1 < c.capacity)
    (e : Entry) :
    c.Staged start (pairs ++ [e]) batches { b with staged := b.staged.push e } where
  whole := h.whole
  commits := h.commits
  split := by
    rw [h.split]
    simp
  room := by simpa using hroom
  written := h.written
  flushes := h.flushes

/-- The pair that makes up a batch is committed with those that waited. -/
lemma Staged.commit (h : c.Staged start pairs batches b)
    (hfull : b.staged.size + 1 = c.capacity) {world : σ}
    (haccepted : c.target.commit c.durable (b.staged.push e).toList b.world = (.ok (), world)) :
    c.Staged start (pairs ++ [e]) (batches ++ [(b.staged.push e).toList])
      { world, written := b.written + (b.staged.push e).size, flushes := b.flushes + 1 } where
  whole := by
    intro batch hbatch
    rcases List.mem_append.1 hbatch with hold | hnew
    · exact h.whole batch hold
    · rw [List.mem_singleton.1 hnew]
      simpa using hfull
  commits := h.commits.next haccepted
  split := by
    rw [h.split]
    simp
  room := c.capacity_pos
  written := by
    show b.written + (b.staged.push e).size = _
    rw [h.written, List.flatten_concat, List.length_append]
    rfl
  flushes := by
    rw [h.flushes, List.length_append, List.length_singleton]

/-- A call of `stage` either succeeds, or a batch was refused, or a cancellation was noticed. -/
theorem stages_of_staged (h : c.Staged start pairs batches b) (e : Entry) :
    c.Stages start pairs b e (c.stage e b) := by
  have hsize : (b.staged.push e).size = b.staged.size + 1 := Array.size_push e
  have hlimit : max c.limit 1 = c.capacity := rfl
  have hroom := h.room
  by_cases hless : (b.staged.push e).size < max c.limit 1
  · rw [stage_of_room hless]
    exact .staged (h.push (by omega) e)
  · have hfull : b.staged.size + 1 = c.capacity := by omega
    rcases hcommit : c.target.commit c.durable (b.staged.push e).toList b.world with
      ⟨fault | ⟨⟩, world⟩
    · rw [stage_of_refused hless hcommit]
      exact .refused hfull ⟨hcommit, rfl, rfl, rfl⟩
    · have hafter := h.commit hfull hcommit
      rw [stage_of_accepted hless hcommit]
      -- the batch is committed by now, and only then the token is looked at
      cases hcancelled : c.cancelled world with
      | true => exact .cancelled hafter rfl hcancelled
      | false => exact .staged hafter

/-! ### All calls -/

/-- As long as no call fails, whole batches are committed and the other pairs wait. -/
theorem exists_staged {more : List Entry} {p p' : Pass σ}
    (h : c.Staged start pairs batches p.batch)
    (hrun : c.stageAll (more.map .ok) p = (.ok (), p')) :
    ∃ batches', c.Staged start (pairs ++ more) batches' p'.batch := by
  induction more generalizing pairs batches p with
  | nil =>
      cases hrun
      rw [List.append_nil]
      exact ⟨batches, h⟩
  | cons e more ih =>
      have hstep := stages_of_staged h e
      rw [List.map_cons, stageAll] at hrun
      rcases hstage : c.stage e p.batch with ⟨err | ⟨⟩, b'⟩
      · rw [hstage] at hrun
        cases hrun
      · rw [hstage] at hrun hstep
        cases hstep with
        | staged after =>
            obtain ⟨batches', h'⟩ := ih after hrun
            refine ⟨batches', ?_⟩
            rwa [List.append_assoc, List.singleton_append] at h'

/-- So it is from the start of a stream on. -/
lemma staged_stageAll {p : Pass σ}
    (hrun : c.stageAll (pairs.map .ok) ⟨{ world := start }, 0⟩ = (.ok (), p)) :
    ∃ batches, c.Staged start pairs batches p.batch := by
  have h := exists_staged (p := ⟨{ world := start }, 0⟩) (staged_nil c start) hrun
  rwa [List.nil_append] at h

/-! ### Counting -/

lemma length_flatten_of_whole {size : Nat} {batches : List (List Entry)}
    (h : ∀ batch ∈ batches, batch.length = size) :
    batches.flatten.length = size * batches.length := by
  induction batches with
  | nil => rfl
  | cons batch batches ih =>
      obtain ⟨hbatch, hbatches⟩ := List.forall_mem_cons.1 h
      rw [List.flatten_cons, List.length_append, hbatch, ih hbatches, List.length_cons,
        Nat.mul_succ, Nat.add_comm]

/-- Each pair was committed or waits. -/
lemma Staged.length_eq (h : c.Staged start pairs batches b) :
    batches.flatten.length + b.staged.size = pairs.length := by
  have hsize : b.staged.toList.length = b.staged.size := Array.length_toList
  rw [h.split, List.length_append, hsize]

/-- The number of the pairs tells how many batches were committed and how many pairs wait. -/
lemma Staged.counts (h : c.Staged start pairs batches b) :
    pairs.length / c.capacity = batches.length ∧ pairs.length % c.capacity = b.staged.size := by
  refine (Nat.div_mod_unique c.capacity_pos).2 ⟨?_, h.room⟩
  rw [← h.length_eq, length_flatten_of_whole h.whole, Nat.add_comm]

lemma Staged.length_flatten (h : c.Staged start pairs batches b) :
    batches.flatten.length = pairs.length - pairs.length % c.capacity := by
  rw [h.counts.2, ← h.length_eq, Nat.add_sub_cancel]

lemma Staged.flatten_eq (h : c.Staged start pairs batches b) :
    batches.flatten = pairs.take (pairs.length - pairs.length % c.capacity) := by
  rw [← h.length_flatten]
  conv_rhs => rw [h.split]
  exact (List.take_left' rfl).symm

lemma Staged.toList_eq (h : c.Staged start pairs batches b) :
    b.staged.toList = pairs.drop (pairs.length - pairs.length % c.capacity) := by
  rw [← h.length_flatten]
  conv_rhs => rw [h.split]
  exact (List.drop_left' rfl).symm

lemma ceilDiv_of_mod_eq_zero {k size : Nat} (hsize : 0 < size) (h : k % size = 0) :
    k ⌈/⌉ size = k / size := by
  obtain ⟨n, rfl⟩ := Nat.dvd_of_mod_eq_zero h
  rw [← smul_eq_mul, smul_ceilDiv hsize, smul_eq_mul, Nat.mul_div_cancel_left _ hsize]

lemma ceilDiv_of_mod_ne_zero {k size : Nat} (hsize : 0 < size) (h : k % size ≠ 0) :
    k ⌈/⌉ size = k / size + 1 := by
  have hsplit := Nat.div_add_mod k size
  have hlt := Nat.mod_lt k hsize
  rw [Nat.ceilDiv_eq_add_pred_div]
  refine Nat.div_eq_of_lt_le ?_ ?_
  · rw [Nat.add_mul, Nat.mul_comm]
    omega
  · rw [Nat.add_mul, Nat.add_mul, Nat.mul_comm]
    omega

/-! ### The end of a stream -/

lemma Staged.isEmpty_iff (h : c.Staged start pairs batches b) :
    b.staged.isEmpty = true ↔ pairs.length % c.capacity = 0 := by
  rw [h.counts.2, Array.isEmpty_iff_size_eq_zero]

/-- If all pairs were committed, there is nothing to do. -/
lemma Staged.flush_of_dvd (h : c.Staged start pairs batches b)
    (hall : pairs.length % c.capacity = 0) : c.flush b = (.ok (), b) := by
  rw [flush, if_pos (h.isEmpty_iff.2 hall)]

/-- Otherwise the pairs that wait are committed. -/
lemma Staged.flush_of_not_dvd (h : c.Staged start pairs batches b)
    (hrest : pairs.length % c.capacity ≠ 0) {world : σ}
    (haccepted : c.target.commit c.durable b.staged.toList b.world = (.ok (), world)) :
    c.flush b =
      (.ok (), { world, written := pairs.length, flushes := pairs.length ⌈/⌉ c.capacity }) := by
  have hempty : b.staged.isEmpty = false := Bool.eq_false_iff.2 (h.isEmpty_iff.not.2 hrest)
  have hwritten : b.written + b.staged.size = pairs.length := by rw [h.written, h.length_eq]
  rw [flush_of_accepted hempty haccepted, hwritten, h.flushes,
    ceilDiv_of_mod_ne_zero c.capacity_pos hrest, h.counts.1]

/-- Either the rest of the pairs is committed or refused, or there is none. -/
lemma Staged.flush_cases (h : c.Staged start pairs batches b) {r : Except Error Unit}
    {b' : Batch σ} (hflush : c.flush b = (r, b')) :
    (pairs.length % c.capacity = 0 ∧ r = .ok () ∧ b' = b) ∨
      (pairs.length % c.capacity ≠ 0 ∧
        ((∃ world, c.target.commit c.durable b.staged.toList b.world = (.ok (), world) ∧
            r = .ok () ∧
            b' = { world, written := pairs.length, flushes := pairs.length ⌈/⌉ c.capacity }) ∨
          ∃ fault, r = .error (c.refusal fault) ∧ c.Refused fault b.staged b b')) := by
  by_cases hrest : pairs.length % c.capacity = 0
  · rw [h.flush_of_dvd hrest] at hflush
    cases hflush
    exact .inl ⟨hrest, rfl, rfl⟩
  · have hempty : b.staged.isEmpty = false := Bool.eq_false_iff.2 (h.isEmpty_iff.not.2 hrest)
    refine .inr ⟨hrest, ?_⟩
    rcases hcommit : c.target.commit c.durable b.staged.toList b.world with ⟨fault | ⟨⟩, world⟩
    · rw [flush_of_refused hempty hcommit] at hflush
      cases hflush
      exact .inr ⟨fault, rfl, hcommit, rfl, rfl, rfl⟩
    · rw [h.flush_of_not_dvd hrest hcommit] at hflush
      cases hflush
      exact .inl ⟨world, rfl, rfl, rfl⟩

/-- What is committed at the end makes up the number of the pairs. -/
lemma Staged.written_flush (h : c.Staged start pairs batches b) {b' : Batch σ}
    (hflush : c.flush b = (.ok (), b')) : b'.written = pairs.length := by
  obtain ⟨hall, -, rfl⟩ | ⟨-, ⟨world, -, -, rfl⟩ | ⟨_, herror, -⟩⟩ := h.flush_cases hflush
  · rw [h.written, h.length_flatten, hall, Nat.sub_zero]
  · rfl
  · cases herror

/-! ### Streams -/

lemma eq_map_of_stageAll {items : List (Except Error Entry)} {p p' : Pass σ}
    (h : c.stageAll items p = (.ok (), p')) : items = (leading items).map .ok := by
  refine eq_map_leading ?_
  induction items generalizing p with
  | nil => rfl
  | cons item items ih =>
      cases item with
      | error e => cases h
      | ok e =>
          rw [stageAll] at h
          rcases hstage : c.stage e p.batch with ⟨err | ⟨⟩, b⟩
          · rw [hstage] at h
            cases h
          · rw [hstage] at h
            exact ih h

/-- A stream that is written to its end is counted as a whole. -/
theorem written_transcode {items : List (Except Error Entry)} {world : σ} {stats : PassStats}
    {p : Pass σ} (h : c.transcode items world = (.ok stats, p)) : stats.written = items.length := by
  unfold transcode at h
  rcases hstaged : c.stageAll items ⟨{ world }, 0⟩ with ⟨e | ⟨⟩, p'⟩
  · rw [hstaged] at h
    cases h
  · rcases hflush : c.flush p'.batch with ⟨e | ⟨⟩, batch⟩
    · simp only [hstaged, hflush] at h
      cases h
    · simp only [hstaged, hflush] at h
      cases h
      have hitems := eq_map_of_stageAll hstaged
      rw [hitems] at hstaged
      obtain ⟨batches, hall⟩ := staged_stageAll hstaged
      rw [hitems, List.length_map]
      exact hall.written_flush hflush

lemma scanned_stageAll {items : List (Except Error Entry)} {p p' : Pass σ}
    (h : c.stageAll items p = (.ok (), p')) : p'.scanned = p.scanned + items.length := by
  induction items generalizing p with
  | nil =>
      cases h
      rfl
  | cons item items ih =>
      cases item with
      | error e => cases h
      | ok entry =>
          rw [stageAll] at h
          rcases hstage : c.stage entry p.batch with ⟨e | ⟨⟩, b⟩
          · rw [hstage] at h
            cases h
          · rw [hstage] at h
            rw [ih h, List.length_cons, Nat.add_right_comm, Nat.add_assoc]

/-- All of its items were looked at. -/
lemma scanned_transcode {items : List (Except Error Entry)} {world : σ} {stats : PassStats}
    {p : Pass σ} (h : c.transcode items world = (.ok stats, p)) : p.scanned = items.length := by
  unfold transcode at h
  rcases hstaged : c.stageAll items ⟨{ world }, 0⟩ with ⟨e | ⟨⟩, p'⟩
  · rw [hstaged] at h
    cases h
  · rcases hflush : c.flush p'.batch with ⟨e | ⟨⟩, batch⟩
    · simp only [hstaged, hflush] at h
      cases h
    · simp only [hstaged, hflush] at h
      cases h
      rw [scanned_stageAll hstaged, Nat.zero_add]

/-! ### What calls keep up -/

/-- All of the pairs are written, and nothing is staged any more. -/
structure AllWritten (held : σ → Contents) (start : σ) (pairs : List Entry) (b : Batch σ) :
    Prop where
  contents : held b.world = (held start).overlay pairs
  staged : b.staged = #[]
  written : b.written = pairs.length

/-- What calls of `stage` keep up: it is said after `pairs` were staged and none of the calls has
failed.  Since any world may be behind a channel, also one that notes what it is asked, the commits
that are spoken of are those that were issued. -/
structure KeepsBatches (c : Channel σ) (held : σ → Contents) (start : σ) (pairs : List Entry)
    (b : Batch σ) : Prop where
  /-- Whole batches of the pairs in front were committed, and nothing else. -/
  commits : ∃ batches, (∀ batch ∈ batches, batch.length = c.capacity) ∧
    batches.flatten = pairs.take (pairs.length - pairs.length % c.capacity) ∧
    c.Commits start batches b.world
  contents : held b.world =
    (held start).overlay (pairs.take (pairs.length - pairs.length % c.capacity))
  /-- The other pairs wait. -/
  staged : b.staged.toList = pairs.drop (pairs.length - pairs.length % c.capacity)
  size : b.staged.size = pairs.length % c.capacity
  written : b.written = pairs.length - pairs.length % c.capacity
  flushes : b.flushes = pairs.length / c.capacity
  /-- If no pair waits, there is no commit at the end. -/
  idle : pairs.length % c.capacity = 0 → c.flush b = (.ok (), b)
  /-- If pairs wait, there is a single commit at the end, of all of them. -/
  rest : pairs.length % c.capacity ≠ 0 → ∀ {world},
    c.target.commit c.durable (pairs.drop (pairs.length - pairs.length % c.capacity)) b.world =
        (.ok (), world) →
      c.flush b =
        (.ok (), { world, written := pairs.length, flushes := pairs.length ⌈/⌉ c.capacity })
  finished : ∀ {b'}, c.flush b = (.ok (), b') →
    AllWritten held start pairs b' ∧ b'.flushes = pairs.length ⌈/⌉ c.capacity
  unfinished : ∀ {err b'}, c.flush b = (.error err, b') →
    ∃ fault, err = c.refusal fault ∧ c.Refused fault b.staged b b' ∧
      held b'.world = held b.world
  /-- The next call fails only if a batch is refused or if a cancellation is noticed. -/
  fails : ∀ {e err b'}, c.stage e b = (.error err, b') →
    (∃ fault, err = c.refusal fault ∧ c.Refused fault (b.staged.push e) b b' ∧
        held b'.world = held b.world) ∨
      (err = .run (.cancelled (pairs.length + 1)) ∧ c.cancelled b'.world = true ∧
        AllWritten held start (pairs ++ [e]) b')

variable {held : σ → Contents}

/-- If no pair waits, all pairs are written. -/
lemma Staged.allWritten (ht : c.target.Tracks held Contents.overlay)
    (h : c.Staged start pairs batches b) (hall : b.staged = #[]) :
    AllWritten held start pairs b where
  contents := by rw [h.commits.view ht, h.split, hall, List.append_nil]
  staged := hall
  written := by rw [h.written, h.split, hall, List.append_nil]

/-- If the commit at the end succeeds, all pairs are written. -/
lemma Staged.allWritten_flush (ht : c.target.Tracks held Contents.overlay)
    (h : c.Staged start pairs batches b) {b' : Batch σ} (hflush : c.flush b = (.ok (), b')) :
    AllWritten held start pairs b' ∧ b'.flushes = pairs.length ⌈/⌉ c.capacity := by
  obtain ⟨hall, -, rfl⟩ | ⟨-, ⟨world, hcommit, -, rfl⟩ | ⟨_, herror, -⟩⟩ := h.flush_cases hflush
  · refine ⟨h.allWritten ht (by simpa using h.isEmpty_iff.2 hall), ?_⟩
    rw [ceilDiv_of_mod_eq_zero c.capacity_pos hall, h.flushes, h.counts.1]
  · refine ⟨⟨?_, rfl, rfl⟩, rfl⟩
    rw [ht.commit_ok hcommit, h.commits.view ht, ← Contents.overlay_append, ← h.split]
  · cases herror

/-- If the commit at the end is refused, nothing has changed. -/
lemma Staged.refused_flush (ht : c.target.Tracks held Contents.overlay)
    (h : c.Staged start pairs batches b) {err : Error} {b' : Batch σ}
    (hflush : c.flush b = (.error err, b')) :
    ∃ fault, err = c.refusal fault ∧ c.Refused fault b.staged b b' ∧
      held b'.world = held b.world := by
  obtain ⟨-, hok, -⟩ | ⟨-, ⟨_, -, hok, -⟩ | ⟨fault, herror, hrefused⟩⟩ := h.flush_cases hflush
  · cases hok
  · cases hok
  · cases herror
    exact ⟨fault, rfl, hrefused, ht.commit_error hrefused.commit⟩

/-- A call fails if a batch is refused, and then nothing has changed, or if a cancellation is
noticed, and then all pairs are written. -/
lemma Staged.fails (ht : c.target.Tracks held Contents.overlay)
    (h : c.Staged start pairs batches b) {err : Error} {b' : Batch σ}
    (hstage : c.stage e b = (.error err, b')) :
    (∃ fault, err = c.refusal fault ∧ c.Refused fault (b.staged.push e) b b' ∧
        held b'.world = held b.world) ∨
      (err = .run (.cancelled (pairs.length + 1)) ∧ c.cancelled b'.world = true ∧
        AllWritten held start (pairs ++ [e]) b') := by
  have hstages := stages_of_staged h e
  rw [hstage] at hstages
  cases hstages with
  | @refused fault _ full after =>
      exact .inl ⟨fault, rfl, after, ht.commit_error after.commit⟩
  | cancelled after empty noticed =>
      have hall := after.allWritten ht empty
      have hcount : b'.written = pairs.length + 1 := by
        rw [hall.written, List.length_append, List.length_singleton]
      exact .inr ⟨by rw [hcount], noticed, hall⟩

/-- Whatever the target, the limit and the pairs: as long as no call fails, the target holds the
whole batches, the rest is staged, and the counters tell the number of the former; the end of the
stream and each way to fail leave the target, the counters and what is staged as they should. -/
theorem keepsBatches (ht : c.target.Tracks held Contents.overlay) (start : σ) (pairs : List Entry)
    {p : Pass σ} (hrun : c.stageAll (pairs.map .ok) ⟨{ world := start }, 0⟩ = (.ok (), p)) :
    c.KeepsBatches held start pairs p.batch := by
  obtain ⟨batches, h⟩ := staged_stageAll hrun
  exact {
    commits := ⟨batches, h.whole, h.flatten_eq, h.commits⟩
    contents := by rw [h.commits.view ht, h.flatten_eq]
    staged := h.toList_eq
    size := h.counts.2.symm
    written := by rw [h.written, h.length_flatten]
    flushes := by rw [h.flushes, h.counts.1]
    idle := h.flush_of_dvd
    rest := fun hrest _ haccepted => h.flush_of_not_dvd hrest (by rwa [h.toList_eq])
    finished := h.allWritten_flush ht
    unfinished := h.refused_flush ht
    fails := h.fails ht }

end Channel

/-! ### Stores in memory -/

namespace MemoryStore

/-- A store in memory takes a batch as a whole or not at all. -/
theorem tracks_contents : target.Tracks contents Contents.overlay where
  act_nil _ := rfl
  act_append := Contents.overlay_append
  commit_ok h := by
    simp only [target, commit] at h
    split at h
    · cases h
    · cases h
      rfl
  commit_error h := by
    simp only [target, commit] at h
    split at h
    · cases h
      rfl
    · cases h

/-- A channel to a store in memory that takes two records at a time and is cancelled once it took
six. -/
def inPairs : Channel MemoryStore where
  target := target
  cancelled s := s.commits == 3
  limit := 2
  label := "pairs"

/-- Five pairs, a key of which is written three times. -/
def fivePairs : List Entry :=
  [([1], [10]), ([2], [20]), ([1], [11]), ([1], [12]), ([3], [30])]

/-- Of five pairs, four are committed and one waits. -/
theorem keepsBatches_inPairs :
    ∃ p, inPairs.stageAll (fivePairs.map .ok) ⟨{ world := {} }, 0⟩ = (.ok (), p) ∧
      inPairs.KeepsBatches contents {} fivePairs p.batch ∧ p.batch.written = 4 := by
  have hrun : (inPairs.stageAll (fivePairs.map .ok) ⟨{ world := {} }, 0⟩).1 = .ok () := rfl
  exact ⟨_, Prod.ext hrun rfl,
    Channel.keepsBatches tracks_contents _ fivePairs (Prod.ext hrun rfl), rfl⟩

end MemoryStore

end EpochSplit
