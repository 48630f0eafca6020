import EpochSplit.Proofs.Migrator.Copying
import EpochSplit.Proofs.Splits
/-!
# Cancellations

A run that is cancelled on the way notices it when it has committed the next full batch, and commits
nothing after that.  The batch that a stream is left with at its end is committed all the same, and
nothing is noticed then; so each stream that is still to be written may issue one more commit, and
a run whose streams never fill a batch goes on to its end.
-/

namespace EpochSplit

variable {σ : Type}

/-- Whether a call commits a batch. -/
def Call.isCommit : Call → Bool
  | commit .. => true
  | _ => false

/-- The commits among calls. -/
def commits (calls : List Call) : List Call := calls.filter Call.isCommit

/-- The site, noting the calls, and cancelled once more than `n` calls were made, if not before. -/
def Site.cancelledAfter (site : Site σ) (n : Nat) : Site (Journal σ) :=
  { site.journaled with
    cancelled := fun j => site.cancelled j.world || decide (n < j.calls.length) }

/-! ### Heeding a cancellation -/

/-- How the calls of a run with outcome `r` heed a cancellation that comes after the first `n` of
them, if it writes so many streams in batches of so many pairs. -/
structure Heeds (n size streams : Nat) (r : Except Error Unit) (calls : List Call) : Prop where
  /-- Each stream issues one more commit at most. -/
  few : (commits (calls.drop n)).length ≤ streams
  /-- A full batch is the last, and then the run is cancelled. -/
  last : ∀ {before batch after}, calls = before ++ .commit batch (.ok ()) :: after →
    n ≤ before.length → size ≤ batch.length →
      commits after = [] ∧ ∃ e, r = .error e ∧ e.isCancelled = true

namespace Heeds

variable {n size k k₁ k₂ : Nat} {r r' : Except Error Unit} {calls first more : List Call}
  {call : Call}

lemma nil : Heeds n size k r [] :=
  ⟨by simp [commits], fun h => by simp at h⟩

/-- The outcome may be put differently, as long as a cancellation stays one. -/
lemma imp (h : Heeds n size k r calls)
    (hr : ∀ e, r = .error e → e.isCancelled = true →
      ∃ e', r' = .error e' ∧ e'.isCancelled = true) :
    Heeds n size k r' calls where
  few := h.few
  last hcalls hlate hfull := by
    obtain ⟨hafter, e, he, hcancelled⟩ := h.last hcalls hlate hfull
    exact ⟨hafter, hr e he hcancelled⟩

/-- A run that is not cancelled commits no full batch any more, whatever becomes of it. -/
lemma of_ok (h : Heeds n size k (.ok ()) calls) : Heeds n size k r calls :=
  h.imp fun _ he => (nomatch he)

lemma mono (h : Heeds n size k₁ r calls) (hk : k₁ ≤ k₂) : Heeds n size k₂ r calls :=
  ⟨h.few.trans hk, h.last⟩

lemma append (h₁ : Heeds n size k₁ (.ok ()) first) (h₂ : Heeds (n - first.length) size k₂ r more) :
    Heeds n size (k₁ + k₂) r (first ++ more) where
  few := by
    rw [List.drop_append, commits, List.filter_append, List.length_append]
    exact Nat.add_le_add h₁.few h₂.few
  last {before batch after} hcalls hlate hfull := by
    obtain ⟨rest, hfirst, -⟩ | ⟨rest, rfl, hmore⟩ := split_append hcalls
    · -- a full batch would have ended the first part
      obtain ⟨-, e, he, -⟩ := h₁.last hfirst hlate hfull
      cases he
    · refine h₂.last hmore ?_ hfull
      rw [List.length_append] at hlate
      omega

lemma single (hk : (commits ([call].drop n)).length ≤ k)
    (h : ∀ batch, call = .commit batch (.ok ()) → n = 0 → size ≤ batch.length →
      ∃ e, r = .error e ∧ e.isCancelled = true) :
    Heeds n size k r [call] where
  few := hk
  last {before batch after} hcalls hlate hfull := by
    cases before with
    | nil =>
        obtain ⟨hcall, rfl⟩ := List.cons.inj hcalls
        exact ⟨rfl, h batch hcall (Nat.le_zero.1 hlate) hfull⟩
    | cons call' before => simp at hcalls

/-- A single commit.  If it is a full batch, the run is cancelled. -/
lemma commit {batch : List Entry} {result : Except StoreFault Unit}
    (h : result = .ok () → size ≤ batch.length → ∃ e, r = .error e ∧ e.isCancelled = true) :
    Heeds n size 1 r [.commit batch result] := by
  refine single ((List.length_filter_le _ _).trans ?_) fun batch' heq _ hfull => ?_
  · rw [List.length_drop]
    exact Nat.sub_le 1 n
  · cases heq
    exact h rfl hfull

/-- A commit that is refused leaves nothing written. -/
lemma refused {batch : List Entry} {fault : StoreFault} :
    Heeds n size 1 r [.commit batch (.error fault)] := by
  refine commit fun haccepted => ?_
  cases haccepted

/-- A run that goes on after a first stream: `before` are the calls so far, to which the stream
adds `first`, and what comes after it adds `more`. -/
lemma exists_calls {before middle after : List Call} (hmiddle : middle = before ++ first)
    (hafter : after = middle ++ more) (h₁ : Heeds (n - before.length) size 1 (.ok ()) first)
    (h₂ : Heeds (n - middle.length) size k r more) :
    ∃ calls, after = before ++ calls ∧ Heeds (n - before.length) size (k + 1) r calls := by
  subst hmiddle hafter
  rw [List.length_append, ← Nat.sub_sub] at h₂
  refine ⟨first ++ more, List.append_assoc _ _ _, ?_⟩
  rw [Nat.add_comm]
  exact h₁.append h₂

/-- A call that commits nothing, in front. -/
lemma cons (hcall : call.isCommit = false) (h : Heeds (n - 1) size k r more) :
    Heeds n size k r (call :: more) := by
  have hother : Heeds n size 0 (.ok ()) [call] := by
    refine single ?_ ?_
    · cases n <;> simp [commits, hcall]
    · rintro batch rfl
      cases hcall
  exact Nat.zero_add k ▸ hother.append h

/-- A call before the cancellation, in front. -/
lemma cons_early (hn : 0 < n) (h : Heeds (n - 1) size k r more) :
    Heeds n size k r (call :: more) := by
  have hother : Heeds n size 0 (.ok ()) [call] := by
    refine single ?_ fun _ _ h => absurd h (Nat.ne_of_gt hn)
    cases n with
    | zero => exact absurd hn (Nat.lt_irrefl 0)
    | succ n => simp [commits]
  exact Nat.zero_add k ▸ hother.append h

/-- A call that commits nothing, at the end. -/
lemma concat (h : Heeds n size k r calls) (hcall : call.isCommit = false) :
    Heeds n size k r (calls ++ [call]) where
  few := by
    refine Nat.le_trans (Nat.le_of_eq ?_) h.few
    rw [List.drop_append, commits, List.filter_append]
    have hnone : (List.drop (n - calls.length) [call]).filter Call.isCommit = [] := by
      refine List.filter_eq_nil_iff.2 fun call' hmem => ?_
      rw [List.mem_singleton.1 (List.mem_of_mem_drop hmem), hcall]
      exact Bool.false_ne_true
    rw [hnone, List.append_nil, commits]
  last {before batch after} hcalls hlate hfull := by
    obtain ⟨rest, hfirst, rfl⟩ | ⟨rest, -, hrest⟩ := split_append hcalls
    · obtain ⟨hafter, hcancelled⟩ := h.last hfirst hlate hfull
      refine ⟨?_, hcancelled⟩
      rw [commits, List.filter_append, ← commits, hafter]
      simp [hcall]
    · cases rest with
      | nil =>
          obtain ⟨rfl, -⟩ := List.cons.inj hrest
          cases hcall
      | cons call' rest => simp at hrest

end Heeds

/-! ### Streams -/

section Streams

variable {c : Channel (Journal σ)} {t : Target σ} {n : Nat}
  (ht : c.target = t.journaled) (hlate : ∀ j, n < j.calls.length → c.cancelled j = true)
include ht

lemma takeStep_of_refused {doing : List String} {batch : List Entry} {j : Journal σ}
    {fault : StoreFault} {world : σ}
    (h : t.commit c.durable batch j.world = (.error fault, world)) :
    c.takeStep (.commit doing batch) j =
      (.error (.within doing (.store fault)),
        ⟨world, j.calls ++ [.commit batch (.error fault)]⟩) := by
  simp only [Channel.takeStep, ht, Target.journaled, Journal.note, h]

lemma takeStep_of_accepted {doing : List String} {batch : List Entry} {j : Journal σ} {world : σ}
    (h : t.commit c.durable batch j.world = (.ok (), world)) :
    c.takeStep (.commit doing batch) j =
      (.ok (), ⟨world, j.calls ++ [.commit batch (.ok ())]⟩) := by
  simp only [Channel.takeStep, ht, Target.journaled, Journal.note, h]

include hlate

/-- A stream that is written heeds a cancellation. -/
lemma heeds_schedule (label : String) (doing : List String) {staged : List Entry} (written : Nat)
    (items : List (Except Error Entry)) (j : Journal σ) (hstaged : staged.length < max c.limit 1) :
    ∃ calls,
      (c.perform (schedule c.limit label doing staged written items) j).2.calls =
        j.calls ++ calls ∧
      Heeds (n - j.calls.length) (max c.limit 1) 1
        (c.perform (schedule c.limit label doing staged written items) j).1 calls := by
  -- what is staged never fills a batch, as a full one is committed at once
  induction items generalizing staged written j with
  | nil =>
      simp only [schedule]
      split
      · exact ⟨[], (List.append_nil _).symm, .nil⟩
      · -- what is left over is no full batch
        rcases hcommit : t.commit c.durable staged j.world with ⟨fault | ⟨⟩, world⟩
        · rw [Channel.perform_cons_error (takeStep_of_refused ht hcommit)]
          exact ⟨_, rfl, .refused⟩
        · rw [Channel.perform_cons_ok (takeStep_of_accepted ht hcommit)]
          exact ⟨_, rfl, .commit fun _ hfull => absurd hstaged (Nat.not_lt.2 hfull)⟩
  | cons item items ih =>
      cases item with
      | error e => exact ⟨[], (List.append_nil _).symm, .nil⟩
      | ok e =>
          simp only [schedule]
          split
          · next hroom => exact ih written j hroom
          · rcases hcommit : t.commit c.durable (staged ++ [e]) j.world with ⟨fault | ⟨⟩, world⟩
            · rw [Channel.perform_cons_error (takeStep_of_refused ht hcommit)]
              exact ⟨_, rfl, .refused⟩
            · rw [Channel.perform_cons_ok (takeStep_of_accepted ht hcommit)]
              generalize hj : (⟨world, j.calls ++ [.commit (staged ++ [e]) (.ok ())]⟩ : Journal σ) =
                j'
              cases hcancelled : c.cancelled j' with
              | true =>
                  rw [Channel.perform_cons_error
                    (by rw [Channel.takeStep, hcancelled, if_pos rfl])]
                  subst hj
                  -- the pause after a full batch is where it is noticed
                  refine ⟨_, rfl, .commit fun _ _ => ⟨_, rfl, ?_⟩⟩
                  rw [Error.isCancelled, Error.root_within]
                  rfl
              | false =>
                  rw [Channel.perform_cons_ok
                    (by rw [Channel.takeStep, hcancelled, if_neg Bool.false_ne_true])]
                  have hnone : ([] : List Entry).length < max c.limit 1 :=
                    Nat.le_max_right c.limit 1
                  obtain ⟨calls, hcalls, hheeds⟩ :=
                    ih (written + (staged ++ [e]).length) j' hnone
                  -- as nothing was noticed, this commit came before the cancellation
                  have hearly : j'.calls.length ≤ n := by
                    refine Nat.not_lt.1 fun h => ?_
                    rw [hlate j' h] at hcancelled
                    cases hcancelled
                  subst hj
                  rw [List.length_append, List.length_singleton] at hearly hheeds
                  refine ⟨_ :: calls, hcalls.trans (List.append_assoc _ _ _), ?_⟩
                  refine .cons_early (by omega) ?_
                  rwa [Nat.sub_sub]

/-- Streams that are written one after the other heed a cancellation. -/
lemma heeds_plan (plan : List EpochStream) (j : Journal σ) :
    ∃ calls,
      (c.perform (plan.flatMap (EpochStream.steps c.limit)) j).2.calls = j.calls ++ calls ∧
      Heeds (n - j.calls.length) (max c.limit 1) plan.length
        (c.perform (plan.flatMap (EpochStream.steps c.limit)) j).1 calls := by
  induction plan generalizing j with
  | nil => exact ⟨[], (List.append_nil _).symm, .nil⟩
  | cons s plan ih =>
      have hnone : ([] : List Entry).length < max c.limit 1 := Nat.le_max_right c.limit 1
      obtain ⟨first, hfirst, hheeds⟩ := heeds_schedule ht hlate s.label s.contexts 0 s.items j hnone
      rw [List.flatMap_cons, Channel.perform_append, EpochStream.steps, List.length_cons]
      rcases hs : c.perform (schedule c.limit s.label s.contexts [] 0 s.items) j with ⟨e | ⟨⟩, j₁⟩
      · rw [hs] at hfirst hheeds
        exact ⟨first, hfirst, hheeds.mono (Nat.le_add_left 1 _)⟩
      · rw [hs] at hfirst hheeds
        obtain ⟨more, hmore, hrest⟩ := ih j₁
        exact hheeds.exists_calls hfirst hmore hrest

/-- A pass heeds a cancellation. -/
lemma heeds_transcode (items : List (Except Error Entry)) (j : Journal σ) :
    ∃ calls, (c.transcode items j).2.batch.world.calls = j.calls ++ calls ∧
      Heeds (n - j.calls.length) (max c.limit 1) 1 ((c.transcode items j).1.map fun _ => ())
        calls := by
  have hnone : ([] : List Entry).length < max c.limit 1 := Nat.le_max_right c.limit 1
  have hheeds := heeds_schedule ht hlate c.label [] 0 items j hnone
  rwa [← Channel.transcode_eq_perform_nil] at hheeds

end Streams

/-! ### Streams that fill no batch -/

/-- Whether a cancellation may be noticed at a step. -/
def Step.isPause : Step → Bool
  | pause .. => true
  | _ => false

/-- Steps at which nothing may be noticed do not depend on the token. -/
lemma perform_of_pauseless (c : Channel σ) (cancelled : σ → Bool) {steps : List Step}
    (h : ∀ s ∈ steps, s.isPause = false) (world : σ) :
    { c with cancelled }.perform steps world = c.perform steps world := by
  induction steps generalizing world with
  | nil => rfl
  | cons s steps ih =>
      obtain ⟨hs, hsteps⟩ := List.forall_mem_cons.1 h
      have hstep : { c with cancelled }.takeStep s world = c.takeStep s world := by
        cases s with
        | commit doing batch => rfl
        | pause doing written => cases hs
        | stop e => rfl
      simp only [Channel.perform, hstep, ih hsteps]

/-- A stream that fills no batch is written without such a step. -/
lemma pauseless_schedule {limit : Nat} {label : String} {doing : List String} {staged : List Entry}
    {written : Nat} {items : List (Except Error Entry)}
    (h : staged.length + items.length < max limit 1) :
    ∀ s ∈ schedule limit label doing staged written items, s.isPause = false := by
  induction items generalizing staged with
  | nil =>
      intro s hs
      simp only [schedule] at hs
      split at hs
      · cases hs
      · rw [List.mem_singleton.1 hs]
        rfl
  | cons item items ih =>
      cases item with
      | error e =>
          intro s hs
          rw [List.mem_singleton.1 hs]
          rfl
      | ok e =>
          rw [List.length_cons] at h
          have hroom : (staged ++ [e]).length < max limit 1 := by
            rw [List.length_append, List.length_singleton]
            omega
          simp only [schedule, if_pos hroom]
          refine ih ?_
          rw [List.length_append, List.length_singleton]
          omega

/-- A pass that fills no batch does not depend on the token. -/
lemma transcode_unnoticed (c : Channel σ) (cancelled : σ → Bool)
    {items : List (Except Error Entry)} (h : items.length < max c.limit 1) (world : σ) :
    (({ c with cancelled }.transcode items world).1.map fun _ => (),
        ({ c with cancelled }.transcode items world).2.batch.world) =
      ((c.transcode items world).1.map fun _ => (), (c.transcode items world).2.batch.world) := by
  rw [Channel.transcode_eq_perform_nil, Channel.transcode_eq_perform_nil]
  refine perform_of_pauseless c cancelled (pauseless_schedule ?_) world
  rwa [List.length_nil, Nat.zero_add]

/-! ### Plans -/

/-- The number of streams of which a plan consists. -/
lemma length_epochPlan (s : Source) (metadata : EpochMetadata) (threshold : UInt32) :
    (epochPlan s metadata threshold).length = 4 * metadata.ranges.length + 2 := by
  have hranges : (metadata.ranges.flatMap (EpochPlan.tickRange s)).length =
      3 * metadata.ranges.length := by
    simp only [List.length_flatMap, EpochPlan.tickRange, List.length_cons, List.length_nil]
    rw [List.map_const', List.sum_replicate_nat, Nat.mul_comm]
  rw [epochPlan, List.length_cons, List.length_append, hranges, EpochPlan.quorum]
  simp only [List.length_append, List.length_map, List.length_singleton]
  omega

namespace Migrator

variable {site : Site σ} {m : Migrator}

/-! ### Epochs -/

/-- A move that is begun ends in the world in which its epoch was run. -/
lemma world_migrateEpoch {epoch : UInt32} {world : σ} (hready : m.state.canMigrate = true)
    (hlive : site.cancelled world = false) :
    (m.migrateEpoch site epoch world).2.2 = (m.runEpoch site epoch world).2 := by
  rcases hrun : m.runEpoch site epoch world with ⟨e | report, world'⟩
  · rw [migrateEpoch_of_run_error hready hlive hrun]
  · rw [migrateEpoch_of_run_ok hready hlive hrun]

/-- An epoch that was written is perhaps compacted, and closed. -/
lemma world_runEpoch {epoch : UInt32} {metadata : EpochMetadata} {target : Target σ}
    {world opened written : σ} (hmd : m.metadata.get? epoch = some metadata)
    (hopen : site.openEpoch epoch world = (.ok target, opened))
    (hwrite : m.writeEpoch site metadata target opened = (.ok (), written)) :
    ∃ reached, (reached = written ∨ reached = (target.compact written).2) ∧
      (m.runEpoch site epoch world).2 = (target.close reached).2 := by
  have hcourse := settle_course m target
    (m.counted (site.source opened) metadata { epoch, startedAt := site.now opened }) written
  rcases hsettle : m.settle target
    (m.counted (site.source opened) metadata { epoch, startedAt := site.now opened }) written with
    ⟨filled, reached⟩
  rw [hsettle] at hcourse
  refine ⟨reached, hcourse, ?_⟩
  rw [runEpoch_of_opened hmd hopen ((fillEpoch_of_ok hwrite).trans hsettle) (Prod.eta _).symm]

lemma late_cancelledAfter (site : Site σ) (m : Migrator) (target : Target σ) {n : Nat}
    {label : String} (j : Journal σ) (h : n < j.calls.length) :
    (m.channel (site.cancelledAfter n) target.journaled label).cancelled j = true := by
  simp only [channel, Site.cancelledAfter, h, decide_true, Bool.or_true]

/-- The number of streams that are written for an epoch. -/
def streamCount (m : Migrator) (epoch : UInt32) : Nat :=
  (m.metadata.get? epoch).elim 0 fun metadata => 4 * metadata.ranges.length + 2

/-- Writing an epoch heeds a cancellation. -/
lemma heeds_writeEpoch (site : Site σ) (m : Migrator) (n : Nat) (metadata : EpochMetadata)
    (target : Target σ) (j : Journal σ) :
    ∃ calls,
      (m.writeEpoch (site.cancelledAfter n) metadata target.journaled j).2.calls =
        j.calls ++ calls ∧
      Heeds (n - j.calls.length) (max m.settings.batchSize.toNat 1) (4 * metadata.ranges.length + 2)
        (m.writeEpoch (site.cancelledAfter n) metadata target.journaled j).1 calls := by
  rw [← length_epochPlan (site.source j.world) metadata m.settings.signatureEpochThreshold]
  exact heeds_plan (c := m.channel (site.cancelledAfter n) target.journaled "") rfl
    (late_cancelledAfter site m target) _ j

/-- A move heeds a cancellation. -/
lemma heeds_migrateEpoch (site : Site σ) (m : Migrator) (n : Nat) (epoch : UInt32) (world : σ) :
    Heeds n (max m.settings.batchSize.toNat 1) (m.streamCount epoch)
      (m.migrateEpoch (site.cancelledAfter n) epoch { world }).1
      (m.migrateEpoch (site.cancelledAfter n) epoch { world }).2.2.calls := by
  cases hready : m.state.canMigrate with
  | false =>
      rw [migrateEpoch_of_unready hready]
      exact .nil
  | true =>
  cases hlive : (site.cancelledAfter n).cancelled { world } with
  | true =>
      rw [migrateEpoch_of_cancelled hready hlive]
      exact .nil
  | false =>
  cases hmd : m.metadata.get? epoch with
  | none =>
      rw [migrateEpoch_of_run_error hready hlive (runEpoch_of_unknown hmd)]
      exact .nil
  | some metadata =>
  rw [streamCount, hmd, Option.elim_some]
  rcases hopen : site.openEpoch epoch world with ⟨fault | target, opened⟩
  · have hopen' : (site.cancelledAfter n).openEpoch epoch { world } =
        (.error fault, ⟨opened, [.opened epoch (.error fault)]⟩) :=
      openEpoch_journaled_error hopen
    rw [migrateEpoch_of_run_error hready hlive (runEpoch_of_unopened hmd hopen')]
    exact .cons rfl .nil
  · have hopen' : (site.cancelledAfter n).openEpoch epoch { world } =
        (.ok target.journaled, ⟨opened, [.opened epoch (.ok ())]⟩) :=
      openEpoch_journaled_ok hopen
    obtain ⟨calls, hcalls, hheeds⟩ :=
      heeds_writeEpoch site m n metadata target ⟨opened, [.opened epoch (.ok ())]⟩
    rcases hwrite : m.writeEpoch (site.cancelledAfter n) metadata target.journaled
      ⟨opened, [.opened epoch (.ok ())]⟩ with ⟨outcome, written⟩
    rw [hwrite] at hcalls hheeds
    -- before the streams the store was opened, and after them it is closed: neither commits
    have hwritten : Heeds n (max m.settings.batchSize.toNat 1) (4 * metadata.ranges.length + 2)
        outcome written.calls :=
      hcalls ▸ hheeds.cons rfl
    cases outcome with
    | error e =>
        rw [migrateEpoch_of_write_error hready hlive hmd hopen' hwrite rfl]
        refine (hwritten.concat rfl).imp fun e' he hcancelled => ⟨_, rfl, ?_⟩
        cases he
        exact hcancelled
    | ok _ =>
        obtain ⟨reached, hreached, hclosed⟩ := world_runEpoch hmd hopen' hwrite
        rw [world_migrateEpoch hready hlive, hclosed]
        obtain rfl | rfl := hreached
        · exact (hwritten.concat rfl).of_ok
        · exact ((hwritten.concat rfl).concat rfl).of_ok

/-! ### Copies -/

/-- Copying namespaces heeds a cancellation. -/
lemma heeds_copyEach (site : Site σ) (n : Nat) (target : Target σ) (namespaces : List Namespace)
    (copied : Std.ExtTreeMap Namespace Nat) (j : Journal σ) (m : Migrator) :
    ∃ calls,
      (m.copyEach (site.cancelledAfter n) target.journaled namespaces copied j).2.2.calls =
        j.calls ++ calls ∧
      Heeds (n - j.calls.length) (max m.settings.batchSize.toNat 1) namespaces.length
        ((m.copyEach (site.cancelledAfter n) target.journaled namespaces copied j).1.map
          fun _ => ()) calls := by
  induction namespaces generalizing copied j m with
  | nil => exact ⟨[], (List.append_nil _).symm, .nil⟩
  | cons ns namespaces ih =>
      obtain ⟨first, hfirst, hheeds⟩ := heeds_transcode
        (c := m.channel (site.cancelledAfter n) target.journaled ns.name) rfl
        (late_cancelledAfter site m target)
        (((site.cancelledAfter n).source j).items (KeyRange.ofNamespace ns)) j
      rw [List.length_cons]
      rcases hcopy : (m.channel (site.cancelledAfter n) target.journaled ns.name).transcode
        (((site.cancelledAfter n).source j).items (KeyRange.ofNamespace ns)) j with ⟨e | stats, p⟩
      · rw [hcopy] at hfirst hheeds
        rw [copyEach_cons_error hcopy]
        refine ⟨first, hfirst, (hheeds.mono (Nat.le_add_left 1 _)).imp ?_⟩
        intro e' he hcancelled
        cases he
        exact ⟨_, rfl, hcancelled⟩
      · rw [hcopy] at hfirst hheeds
        rw [copyEach_cons_ok hcopy]
        obtain ⟨more, hmore, hrest⟩ := ih (copied.insert ns stats.written) p.batch.world
          (m.countCopied ns stats.written)
        exact hheeds.exists_calls hfirst hmore hrest

/-! ### Runs that notice nothing -/

section Unnoticed

variable {τ : Type} {s : Site τ} {cancelled : τ → Bool}

/-- No stream of the epoch fills a batch. -/
def Small (m : Migrator) (s : Site τ) (epoch : UInt32) : Prop :=
  ∀ world metadata, m.metadata.get? epoch = some metadata →
    ∀ stream ∈ epochPlan (s.source world) metadata m.settings.signatureEpochThreshold,
      stream.items.length < max m.settings.batchSize.toNat 1

lemma writeEpoch_unnoticed {epoch : UInt32} (hsmall : m.Small s epoch) {metadata : EpochMetadata}
    (hmd : m.metadata.get? epoch = some metadata) (target : Target τ) (world : τ) :
    m.writeEpoch { s with cancelled } metadata target world =
      m.writeEpoch s metadata target world := by
  refine perform_of_pauseless (m.channel s target "") cancelled (fun step hstep => ?_) world
  obtain ⟨stream, hstream, hstep⟩ := List.mem_flatMap.1 hstep
  refine pauseless_schedule ?_ step hstep
  rw [List.length_nil, Nat.zero_add]
  exact hsmall world metadata hmd stream hstream

lemma runEpoch_unnoticed {epoch : UInt32} (hsmall : m.Small s epoch) (world : τ) :
    m.runEpoch { s with cancelled } epoch world = m.runEpoch s epoch world := by
  cases hmd : m.metadata.get? epoch with
  | none => rw [runEpoch_of_unknown hmd, runEpoch_of_unknown hmd]
  | some metadata =>
      rcases hopen : s.openEpoch epoch world with ⟨fault | target, opened⟩
      · rw [runEpoch_of_unopened hmd hopen]
        exact runEpoch_of_unopened hmd hopen
      · have hwrite : m.writeEpoch { s with cancelled } metadata target opened =
            m.writeEpoch s metadata target opened :=
          writeEpoch_unnoticed hsmall hmd target opened
        have hfill : ∀ report,
            m.fillEpoch { s with cancelled } metadata target report opened =
              m.fillEpoch s metadata target report opened := by
          intro report
          rcases hwritten : m.writeEpoch s metadata target opened with ⟨e | ⟨⟩, written⟩
          · rw [fillEpoch_of_error hwritten, fillEpoch_of_error (hwrite.trans hwritten)]
          · rw [fillEpoch_of_ok hwritten, fillEpoch_of_ok (hwrite.trans hwritten)]
        rcases hfilled : m.fillEpoch s metadata target { epoch, startedAt := s.now opened } opened
          with ⟨filled, reached⟩
        rw [runEpoch_of_opened hmd hopen hfilled (Prod.eta _).symm]
        exact runEpoch_of_opened hmd hopen ((hfill _).trans hfilled) (Prod.eta _).symm

/-- A move none of whose streams fills a batch goes as it goes without the token. -/
lemma migrateEpoch_unnoticed {epoch : UInt32} (hsmall : m.Small s epoch) {world : τ}
    (hlive : cancelled world = s.cancelled world) :
    m.migrateEpoch { s with cancelled } epoch world = m.migrateEpoch s epoch world := by
  have hrun : m.runEpoch { s with cancelled } epoch world = m.runEpoch s epoch world :=
    runEpoch_unnoticed hsmall world
  cases hready : m.state.canMigrate with
  | false => rw [migrateEpoch_of_unready hready, migrateEpoch_of_unready hready]
  | true =>
      cases hcancelled : s.cancelled world with
      | true =>
          rw [migrateEpoch_of_cancelled hready hcancelled]
          exact migrateEpoch_of_cancelled hready (hlive.trans hcancelled)
      | false =>
          rcases hresult : m.runEpoch s epoch world with ⟨e | report, world'⟩
          · rw [migrateEpoch_of_run_error hready hcancelled hresult]
            exact migrateEpoch_of_run_error hready (hlive.trans hcancelled) (hrun.trans hresult)
          · rw [migrateEpoch_of_run_ok hready hcancelled hresult]
            exact migrateEpoch_of_run_ok hready (hlive.trans hcancelled) (hrun.trans hresult)

/-- Copying namespaces none of which fills a batch goes as it goes without the token. -/
lemma copyEach_unnoticed {target : Target τ} {namespaces : List Namespace}
    (hsmall : ∀ ns ∈ namespaces, ∀ world,
      ((s.source world).items (.ofNamespace ns)).length < max m.settings.batchSize.toNat 1)
    (copied : Std.ExtTreeMap Namespace Nat) (world : τ) :
    m.copyEach { s with cancelled } target namespaces copied world =
      m.copyEach s target namespaces copied world := by
  induction namespaces generalizing copied m world with
  | nil => rfl
  | cons ns namespaces ih =>
      obtain ⟨hns, hnamespaces⟩ := List.forall_mem_cons.1 hsmall
      have hpass := transcode_unnoticed (m.channel s target ns.name) cancelled (hns world) world
      rcases hcopy : (m.channel s target ns.name).transcode
        ((s.source world).items (.ofNamespace ns)) world with ⟨e | stats, p⟩
      · rcases hcopy' : { m.channel s target ns.name with cancelled }.transcode
          ((s.source world).items (.ofNamespace ns)) world with ⟨e' | stats', p'⟩
        · rw [hcopy, hcopy'] at hpass
          obtain ⟨he, hworld⟩ := Prod.mk.inj hpass
          cases he
          rw [copyEach_cons_error hcopy, ← hworld]
          exact copyEach_cons_error hcopy'
        · rw [hcopy, hcopy'] at hpass
          cases hpass
      · rcases hcopy' : { m.channel s target ns.name with cancelled }.transcode
          ((s.source world).items (.ofNamespace ns)) world with ⟨e' | stats', p'⟩
        · rw [hcopy, hcopy'] at hpass
          cases hpass
        · rw [hcopy, hcopy'] at hpass
          obtain ⟨-, hworld⟩ := Prod.mk.inj hpass
          have hwritten : stats'.written = stats.written :=
            (Channel.written_transcode hcopy').trans (Channel.written_transcode hcopy).symm
          rw [copyEach_cons_ok hcopy, ← ih (m := m.countCopied ns stats.written) hnamespaces,
            ← hworld, ← hwritten]
          exact copyEach_cons_ok hcopy'

end Unnoticed

/-! ### Runs that are cancelled on the way -/

/-- How a migrator heeds a cancellation that comes once more than `n` calls were made. -/
structure HeedsCancellation (site : Site σ) (m : Migrator) (n : Nat) (world : σ) : Prop where
  move : ∀ epoch, Heeds n (max m.settings.batchSize.toNat 1) (m.streamCount epoch)
    (m.migrateEpoch (site.cancelledAfter n) epoch { world }).1
    (m.migrateEpoch (site.cancelledAfter n) epoch { world }).2.2.calls
  copy : ∀ (target : Target σ) (namespaces : List Namespace),
    Heeds n (max m.settings.batchSize.toNat 1) namespaces.length
      ((m.copyNamespaces (site.cancelledAfter n) target.journaled namespaces { world }).1.map
        fun _ => ())
      (m.copyNamespaces (site.cancelledAfter n) target.journaled namespaces { world }).2.2.calls
  /-- Where no stream fills a batch, the cancellation is not noticed. -/
  move_unnoticed : ∀ {epoch}, m.Small site.journaled epoch →
    m.migrateEpoch (site.cancelledAfter n) epoch { world } =
      m.migrateEpoch site.journaled epoch { world }
  copy_unnoticed : ∀ {target : Target σ} {namespaces : List Namespace},
    (∀ ns ∈ namespaces, ∀ world,
      ((site.source world).items (.ofNamespace ns)).length < max m.settings.batchSize.toNat 1) →
    m.copyNamespaces (site.cancelledAfter n) target.journaled namespaces { world } =
      m.copyNamespaces site.journaled target.journaled namespaces { world }

/-- A run that is cancelled on the way ends with the next full batch that it commits.  Until then
each stream commits one batch at most, and where no stream fills a batch the run goes on to its
end. -/
theorem heedsCancellation (site : Site σ) (m : Migrator) (n : Nat) (world : σ) :
    HeedsCancellation site m n world where
  move epoch := heeds_migrateEpoch site m n epoch world
  copy target namespaces := by
    unfold copyNamespaces
    split
    · obtain ⟨calls, hcalls, hheeds⟩ := heeds_copyEach site n target namespaces ∅ { world } m
      rw [hcalls]
      exact hheeds
    · exact .nil
  move_unnoticed hsmall := migrateEpoch_unnoticed hsmall (Bool.or_false _)
  copy_unnoticed hsmall := by
    unfold copyNamespaces
    split
    · exact copyEach_unnoticed (fun ns hns j => hsmall ns hns j.world) ∅ _
    · rfl

end Migrator

/-! ### A rehearsed cancellation -/

namespace Rehearsal

/-- A site whose archive is that of the sample. -/
def sampleSite : Site Rehearsal := reading (.ofContents sampleArchive)

/-- The streams of the sample are short, so that a move with large batches does not notice that it
is cancelled after its first commit. -/
theorem heedsCancellation_sample :
    Migrator.migrateEpoch (sampleSite.cancelledAfter 1) 5 { world := {} }
        (.fresh sampleSite {} {}) =
      Migrator.migrateEpoch sampleSite.journaled 5 { world := {} } (.fresh sampleSite {} {}) := by
  have hshort : (((Migrator.fresh sampleSite {} {}).metadata.get? 5).map fun metadata =>
      (epochPlan (.ofContents sampleArchive) metadata
        (Migrator.fresh sampleSite {} {}).settings.signatureEpochThreshold).all fun stream =>
          decide (stream.items.length <
            max (Migrator.fresh sampleSite {} {}).settings.batchSize.toNat 1)) = some true := by
    decide +kernel
  refine (Migrator.heedsCancellation sampleSite _ 1 {}).move_unnoticed ?_
  intro j metadata hmd stream hstream
  rw [hmd] at hshort
  exact of_decide_eq_true (List.all_eq_true.1 (Option.some.inj hshort) stream hstream)

/-- The sample, cancelled after the first commit. -/
def sampleStopped : Rehearsal := { sample with cancelAfter := some 1 }

/-- A move that is cancelled after its first commit goes on with four more, and succeeds. -/
theorem migrateEpoch_sampleStopped :
    ((Migrator.fresh site {} sampleStopped).migrateEpoch site 5 sampleStopped).1 = .ok () ∧
      ((Migrator.fresh site {} sampleStopped).migrateEpoch site 5 sampleStopped).2.2.cancelled =
        true ∧
      ((Migrator.fresh site {} sampleStopped).migrateEpoch site 5 sampleStopped).2.2.commits =
        5 := by
  decide +kernel

end Rehearsal

end EpochSplit
