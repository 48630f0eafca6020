import EpochSplit.Proofs.Batch.Steps
/-!
# The schedule of a stream

The steps that writing a stream takes: a batch is committed whenever it is full, then a cancellation
is noticed, and what is left over is committed at the end.  Writing the stream is taking these steps
(`transcode_eq_perform`).  However the stream is cut into batches, the steps write its records in
order, up to its first error, and report that error.
-/

namespace EpochSplit

/-! ### Items -/

section Items

variable {α : Type}

lemma toOption_eq_some_iff {ε : Type} {item : Except ε α} {a : α} :
    item.toOption = some a ↔ item = .ok a := by
  cases item <;> simp [Except.toOption]

/-- The records in front of the first error of a stream. -/
def leading : List (Except Error α) → List α
  | .ok a :: items => a :: leading items
  | _ => []

/-- The first error of a stream. -/
def firstError? : List (Except Error α) → Option Error
  | [] => none
  | .error e :: _ => some e
  | .ok _ :: items => firstError? items

@[simp] lemma leading_map_ok (as : List α) : leading (as.map .ok) = as := by
  induction as with
  | nil => rfl
  | cons a as ih => exact congrArg (a :: ·) ih

@[simp] lemma firstError?_map_ok (as : List α) : firstError? (as.map .ok) = none := by
  induction as with
  | nil => rfl
  | cons a as ih => exact ih

lemma eq_map_leading {items : List (Except Error α)} (h : firstError? items = none) :
    items = (leading items).map .ok := by
  induction items with
  | nil => rfl
  | cons item items ih =>
      cases item with
      | error e => cases h
      | ok a => rw [leading, List.map_cons, ← ih h]

lemma mem_leading {items : List (Except Error α)} {a : α} (h : a ∈ leading items) :
    .ok a ∈ items := by
  induction items with
  | nil => cases h
  | cons item items ih =>
      cases item with
      | error e => cases h
      | ok b =>
          rcases List.mem_cons.1 h with rfl | h
          · exact List.mem_cons_self
          · exact List.mem_cons_of_mem _ (ih h)

lemma mem_leading_iff {items : List (Except Error α)} (hok : firstError? items = none) {a : α} :
    a ∈ leading items ↔ .ok a ∈ items := by
  refine ⟨mem_leading, fun h => ?_⟩
  rw [eq_map_leading hok] at h
  simpa using h

lemma exists_ok_of_mem {items : List (Except Error α)} (hok : firstError? items = none)
    {item : Except Error α} (h : item ∈ items) : ∃ a, item = .ok a := by
  rw [eq_map_leading hok] at h
  obtain ⟨a, -, rfl⟩ := List.mem_map.1 h
  exact ⟨a, rfl⟩

/-- A stream has no error if none of its items is one. -/
lemma firstError?_eq_none_iff {items : List (Except Error α)} :
    firstError? items = none ↔ ∀ item ∈ items, ∃ a, item = .ok a := by
  refine ⟨fun hok item => exists_ok_of_mem hok, fun hall => ?_⟩
  induction items with
  | nil => rfl
  | cons item items ih =>
      obtain ⟨⟨a, rfl⟩, hitems⟩ := List.forall_mem_cons.1 hall
      exact ih hitems

lemma firstError?_append (items more : List (Except Error α)) :
    firstError? (items ++ more) = (firstError? items).or (firstError? more) := by
  induction items with
  | nil => rfl
  | cons item items ih =>
      cases item with
      | error e => rfl
      | ok a => exact ih

lemma leading_append_of_ok {items : List (Except Error α)} (h : firstError? items = none)
    (more : List (Except Error α)) : leading (items ++ more) = leading items ++ leading more := by
  induction items with
  | nil => rfl
  | cons item items ih =>
      cases item with
      | error e => cases h
      | ok a => exact congrArg (a :: ·) (ih h)

lemma leading_append_of_error {items : List (Except Error α)} {e : Error}
    (h : firstError? items = some e) (more : List (Except Error α)) :
    leading (items ++ more) = leading items := by
  induction items with
  | nil => cases h
  | cons item items ih =>
      cases item with
      | error e => rfl
      | ok a => exact congrArg (a :: ·) (ih h)

lemma leading_prefix_append (items more : List (Except Error α)) :
    leading items <+: leading (items ++ more) := by
  cases h : firstError? items with
  | none =>
      rw [leading_append_of_ok h]
      exact List.prefix_append _ _
  | some e => exact ⟨[], by rw [List.append_nil, leading_append_of_error h]⟩

/-- If all items of a stream can be collected, none of them is an error. -/
lemma eq_map_of_mapM_id {items : List (Except Error α)} {as : List α}
    (h : items.mapM id = .ok as) : items = as.map .ok := by
  induction items generalizing as with
  | nil =>
      cases h
      rfl
  | cons item items ih =>
      rw [List.mapM_cons] at h
      rcases item with e | a
      · cases h
      · rcases hrest : items.mapM id with e | rest
        · rw [hrest] at h
          cases h
        · rw [hrest] at h
          cases h
          rw [List.map_cons, ← ih hrest]

/-- Items that are no errors are collected. -/
lemma mapM_id_map_ok (as : List α) : (as.map .ok : List (Except Error α)).mapM id = .ok as := by
  induction as with
  | nil => rfl
  | cons a as ih =>
      rw [List.map_cons, List.mapM_cons, ih]
      rfl

/-! ### The order of items -/

/-- A stream yields `a` after it has yielded just `before`, and no error. -/
def Yields (items : List (Except Error α)) (before : List α) (a : α) : Prop :=
  before ++ [a] <+: leading items

lemma Yields.mem {items : List (Except Error α)} {before : List α} {a : α}
    (h : Yields items before a) : .ok a ∈ items :=
  mem_leading (h.subset (List.mem_append_right _ List.mem_cons_self))

/-- Each of the first items of a stream is yielded after those in front of it. -/
lemma exists_yields_of_mem {items : List (Except Error α)} {first : List α} {a : α}
    (hfirst : first <+: leading items) (ha : a ∈ first) :
    ∃ before, before ++ [a] <+: first ∧ Yields items before a := by
  obtain ⟨before, after, rfl⟩ := List.append_of_mem ha
  have hprefix : before ++ [a] <+: before ++ a :: after :=
    ⟨after, by rw [List.append_assoc, List.singleton_append]⟩
  exact ⟨before, hprefix, hprefix.trans hfirst⟩

/-- What comes after other items comes when they all have come. -/
lemma yields_append {items more : List (Except Error α)} {before : List α} {a : α}
    (h : Yields (items ++ more) before a) :
    Yields items before a ∨
      firstError? items = none ∧
        ∃ since, before = leading items ++ since ∧ Yields more since a := by
  cases hitems : firstError? items with
  | some e =>
      rw [Yields, leading_append_of_error hitems] at h
      exact .inl h
  | none =>
      rw [Yields, leading_append_of_ok hitems] at h
      obtain hshort | ⟨since, heq⟩ :=
        List.prefix_or_prefix_of_prefix h (List.prefix_append (leading items) (leading more))
      · exact .inl hshort
      · rcases List.eq_nil_or_concat since with rfl | ⟨since, b, rfl⟩
        · rw [List.append_nil] at heq
          exact .inl (heq.symm ▸ List.prefix_rfl : before ++ [a] <+: leading items)
        · rw [List.concat_eq_append, ← List.append_assoc, List.append_singleton_inj] at heq
          obtain ⟨rfl, rfl⟩ := heq
          rw [List.append_assoc] at h
          exact .inr ⟨rfl, since, rfl, (List.prefix_append_right_inj _).1 h⟩

/-- What a stream yields that is made of several parts, one of the parts yields. -/
lemma yields_flatMap {β : Type} {parts : List β} {f : β → List (Except Error α)}
    {before : List α} {a : α} (h : Yields (parts.flatMap f) before a) :
    ∃ part ∈ parts, ∃ since, since <:+ before ∧ Yields (f part) since a := by
  induction parts generalizing before with
  | nil => simp [Yields, leading] at h
  | cons part parts ih =>
      rw [List.flatMap_cons] at h
      obtain hfirst | ⟨-, since, rfl, hlater⟩ := yields_append h
      · exact ⟨part, List.mem_cons_self, before, List.suffix_rfl, hfirst⟩
      · obtain ⟨part', hpart, since', hsuffix, hyields⟩ := ih hlater
        exact ⟨part', List.mem_cons_of_mem _ hpart, since',
          hsuffix.trans (List.suffix_append _ _), hyields⟩

end Items

/-! ### Whole batches -/

/-- The first pairs are whole batches of `size` pairs each. -/
def WholeBatches (size : Nat) (first all : List Entry) : Prop :=
  ∃ k, k * size ≤ all.length ∧ first = all.take (k * size)

namespace WholeBatches

variable {size : Nat} {first all batch : List Entry}

lemma nil (size : Nat) (all : List Entry) : WholeBatches size [] all := ⟨0, by simp, by simp⟩

lemma append_left (h : WholeBatches size first all) (hbatch : batch.length = size) :
    WholeBatches size (batch ++ first) (batch ++ all) := by
  obtain ⟨k, hk, rfl⟩ := h
  refine ⟨k + 1, ?_, ?_⟩
  · rw [List.length_append, Nat.succ_mul]
    omega
  · rw [Nat.succ_mul, Nat.add_comm, ← hbatch, List.take_length_add_append]

end WholeBatches

/-! ### The steps of a stream -/

/-- What is being done while a batch is committed. -/
def committing (label : String) (doing : List String) : List String :=
  doing ++ [s!"committing {label} batch"]

/-- The steps of writing the items of a stream in batches of `limit` records, after some records
were staged and others committed. -/
def schedule (limit : Nat) (label : String) (doing : List String) (staged : List Entry)
    (written : Nat) : List (Except Error Entry) → List Step
  | [] => if staged.isEmpty then [] else [.commit (committing label doing) staged]
  | .error e :: _ => [.stop (e.within doing)]
  | .ok entry :: items =>
      let batch := staged ++ [entry]
      if batch.length < max limit 1 then schedule limit label doing batch written items
      else
        .commit (committing label doing) batch :: .pause doing (written + batch.length) ::
          schedule limit label doing [] (written + batch.length) items

/-- However a stream without errors is cut into batches, its records are written in order. -/
theorem entries_schedule (limit : Nat) (label : String) (doing : List String) (staged : List Entry)
    (written : Nat) {items : List (Except Error Entry)} (hok : firstError? items = none) :
    (schedule limit label doing staged written items).flatMap Step.entries =
      staged ++ leading items := by
  induction items generalizing staged written with
  | nil => cases staged <;> simp [schedule, leading, Step.entries]
  | cons item items ih =>
      cases item with
      | error e => cases hok
      | ok e =>
          simp only [schedule, leading]
          split
          · rw [ih _ _ hok, List.append_assoc, List.singleton_append]
          · rw [List.flatMap_cons, List.flatMap_cons, ih _ _ hok]
            simp [Step.entries]

/-- However a stream is cut into batches, a beginning of its records is written, in order.  What is
staged when an error comes is not written. -/
theorem prefix_entries_schedule (limit : Nat) (label : String) (doing : List String)
    (staged : List Entry) (written : Nat) (items : List (Except Error Entry)) :
    (schedule limit label doing staged written items).flatMap Step.entries <+:
      staged ++ leading items := by
  induction items generalizing staged written with
  | nil => cases staged <;> simp [schedule, leading, Step.entries]
  | cons item items ih =>
      cases item with
      | error e => exact List.nil_prefix
      | ok e =>
          simp only [schedule, leading]
          split
          · have hmore := ih (staged ++ [e]) written
            rwa [List.append_assoc, List.singleton_append] at hmore
          · have hmore := ih [] (written + (staged ++ [e]).length)
            have hsplit : staged ++ e :: leading items = staged ++ [e] ++ leading items := by simp
            simp only [List.flatMap_cons, Step.entries, List.nil_append, hsplit]
            exact (List.prefix_append_right_inj _).2 hmore

/-- What is written before the last step of a stream is whole batches. -/
theorem wholeBatches_schedule {limit : Nat} {label : String} {doing : List String}
    {staged : List Entry} {written : Nat} {items : List (Except Error Entry)}
    {done rest : List Step} {s : Step} (hstaged : staged.length < max limit 1)
    (h : schedule limit label doing staged written items = done ++ s :: rest) :
    WholeBatches (max limit 1) (done.flatMap Step.entries) (staged ++ leading items) := by
  induction items generalizing staged written done with
  | nil =>
      cases done with
      | nil => exact .nil _ _
      | cons t done =>
          simp only [schedule] at h
          split at h <;> simp at h
  | cons item items ih =>
      cases item with
      | error e =>
          cases done with
          | nil => exact .nil _ _
          | cons t done => simp [schedule] at h
      | ok e =>
          have hsplit : staged ++ e :: leading items = staged ++ [e] ++ leading items := by simp
          simp only [schedule] at h
          rw [leading, hsplit]
          split at h
          · next hroom => exact ih hroom h
          · next hfull =>
              have hlength : (staged ++ [e]).length = max limit 1 := by
                rw [List.length_append, List.length_singleton] at hfull ⊢
                omega
              -- the batch is committed, then the run may be cancelled, then the stream goes on
              cases done with
              | nil => exact .nil _ _
              | cons t done =>
                  rw [List.cons_append, List.cons.injEq] at h
                  obtain ⟨rfl, h⟩ := h
                  cases done with
                  | nil => exact WholeBatches.append_left (.nil _ _) hlength
                  | cons t done =>
                      rw [List.cons_append, List.cons.injEq] at h
                      obtain ⟨rfl, h⟩ := h
                      have hnone : ([] : List Entry).length < max limit 1 :=
                        Nat.le_max_right limit 1
                      have hrest := ih hnone h
                      exact hrest.append_left hlength

/-- However a stream is cut into batches, its first error is reported. -/
theorem fault?_schedule (limit : Nat) (label : String) (doing : List String) (staged : List Entry)
    (written : Nat) (items : List (Except Error Entry)) :
    (schedule limit label doing staged written items).findSome? Step.fault? =
      (firstError? items).map (Error.within doing) := by
  induction items generalizing staged written with
  | nil => cases staged <;> rfl
  | cons item items ih =>
      cases item with
      | error e => rfl
      | ok e =>
          simp only [schedule, firstError?]
          split
          · exact ih _ _
          · exact ih _ _

/-- What is said of the writing of a stream is said of each of its steps. -/
lemma map_within_schedule (outer : String) (limit : Nat) (label : String) (doing : List String)
    (staged : List Entry) (written : Nat) (items : List (Except Error Entry)) :
    (schedule limit label doing staged written items).map (.within outer) =
      schedule limit label (outer :: doing) staged written items := by
  induction items generalizing staged written with
  | nil => cases staged <;> rfl
  | cons item items ih =>
      cases item with
      | error e => rfl
      | ok e =>
          simp only [schedule]
          split
          · exact ih _ _
          · rw [List.map_cons, List.map_cons, ih]
            rfl

namespace Channel

variable {σ : Type}

/-! ### One item -/

/-- What becomes of a pass: the last incomplete batch is committed if no item failed. -/
def finish (c : Channel σ) (items : List (Except Error Entry)) (p : Pass σ) :
    Except Error Unit × σ :=
  match c.stageAll items p with
  | (.error e, p) => (.error e, p.batch.world)
  | (.ok (), p) => ((c.flush p.batch).1, (c.flush p.batch).2.world)

lemma within_committing (label : String) (doing : List String) (fault : StoreFault) :
    Error.within (committing label doing) (.store fault) =
      Error.within doing (.context s!"committing {label} batch" (.store fault)) := by
  simp [committing, Error.within]

lemma stage_of_room {c : Channel σ} {e : Entry} {b : Batch σ}
    (h : (b.staged.push e).size < max c.limit 1) :
    c.stage e b = (.ok (), { b with staged := b.staged.push e }) := by
  simp only [stage, if_pos h]

lemma flush_of_refused {c : Channel σ} {b : Batch σ} {fault : StoreFault} {world : σ}
    (hb : b.staged.isEmpty = false)
    (h : c.target.commit c.durable b.staged.toList b.world = (.error fault, world)) :
    c.flush b =
      (.error (.context s!"committing {c.label} batch" (.store fault)), { b with world }) := by
  simp only [flush, hb, h, Bool.false_eq_true, if_false]

lemma flush_of_accepted {c : Channel σ} {b : Batch σ} {world : σ}
    (hb : b.staged.isEmpty = false)
    (h : c.target.commit c.durable b.staged.toList b.world = (.ok (), world)) :
    c.flush b =
      (.ok (), { world, written := b.written + b.staged.size, flushes := b.flushes + 1 }) := by
  simp only [flush, hb, h, Bool.false_eq_true, if_false]

lemma stage_of_refused {c : Channel σ} {e : Entry} {b : Batch σ} {fault : StoreFault} {world : σ}
    (hfull : ¬(b.staged.push e).size < max c.limit 1)
    (h : c.target.commit c.durable (b.staged.push e).toList b.world = (.error fault, world)) :
    c.stage e b =
      (.error (.context s!"committing {c.label} batch" (.store fault)),
        { b with world, staged := b.staged.push e }) := by
  have hflush := flush_of_refused (b := { b with staged := b.staged.push e }) (by simp) h
  simp only [stage, if_neg hfull, hflush]

lemma stage_of_accepted {c : Channel σ} {e : Entry} {b : Batch σ} {world : σ}
    (hfull : ¬(b.staged.push e).size < max c.limit 1)
    (h : c.target.commit c.durable (b.staged.push e).toList b.world = (.ok (), world)) :
    c.stage e b =
      (if c.cancelled world then .error (.run (.cancelled (b.written + (b.staged.push e).size)))
        else .ok (),
        { world, written := b.written + (b.staged.push e).size, flushes := b.flushes + 1 }) := by
  have hflush := flush_of_accepted (b := { b with staged := b.staged.push e }) (by simp) h
  simp only [stage, if_neg hfull, hflush]
  split <;> rfl

lemma finish_cons_ok {c : Channel σ} {e : Entry} {items : List (Except Error Entry)} {p : Pass σ}
    {b : Batch σ} (h : c.stage e p.batch = (.ok (), b)) :
    c.finish (.ok e :: items) p = c.finish items ⟨b, p.scanned + 1⟩ := by
  simp only [finish, stageAll, h]

lemma finish_cons_error {c : Channel σ} {e : Entry} {items : List (Except Error Entry)}
    {p : Pass σ} {b : Batch σ} {err : Error} (h : c.stage e p.batch = (.error err, b)) :
    c.finish (.ok e :: items) p = (.error err, b.world) := by
  simp only [finish, stageAll, h]

/-! ### The whole stream -/

lemma perform_schedule_nil (c : Channel σ) (doing : List String) (p : Pass σ) :
    c.perform (schedule c.limit c.label doing p.batch.staged.toList p.batch.written [])
        p.batch.world =
      ((c.finish [] p).1.mapError (Error.within doing), (c.finish [] p).2) := by
  simp only [schedule, finish, stageAll]
  cases hempty : p.batch.staged.isEmpty with
  | true =>
      have hlist : p.batch.staged.toList.isEmpty = true := by simpa using hempty
      simp [hlist, flush, hempty, Except.mapError]
  | false =>
      have hlist : p.batch.staged.toList.isEmpty = false := by simpa using hempty
      rw [hlist, if_neg Bool.false_ne_true]
      rcases hc : c.target.commit c.durable p.batch.staged.toList p.batch.world with
        ⟨fault | ⟨⟩, world'⟩
      · rw [perform_cons_error (by rw [takeStep, hc]), flush_of_refused hempty hc,
          within_committing]
        rfl
      · rw [perform_cons_ok (by rw [takeStep, hc]), flush_of_accepted hempty hc]
        rfl

/-- Writing the items that are left is taking the steps that are left. -/
theorem perform_schedule (c : Channel σ) (doing : List String) (items : List (Except Error Entry))
    (p : Pass σ) :
    c.perform (schedule c.limit c.label doing p.batch.staged.toList p.batch.written items)
        p.batch.world =
      ((c.finish items p).1.mapError (Error.within doing), (c.finish items p).2) := by
  -- the pass carries what is staged and what is written, so it must be free in the induction
  induction items generalizing p with
  | nil => exact perform_schedule_nil c doing p
  | cons item items ih =>
      cases item with
      | error e => rfl
      | ok e =>
          have hlist : p.batch.staged.toList ++ [e] = (p.batch.staged.push e).toList := by simp
          have hsize : (p.batch.staged.push e).toList.length = (p.batch.staged.push e).size := by
            simp
          simp only [schedule, hlist, hsize]
          by_cases hroom : (p.batch.staged.push e).size < max c.limit 1
          · rw [if_pos hroom, finish_cons_ok (stage_of_room hroom)]
            exact ih ⟨{ p.batch with staged := p.batch.staged.push e }, p.scanned + 1⟩
          · rw [if_neg hroom]
            rcases hc : c.target.commit c.durable (p.batch.staged.push e).toList p.batch.world with
              ⟨fault | ⟨⟩, world'⟩
            · rw [perform_cons_error (by rw [takeStep, hc]),
                finish_cons_error (stage_of_refused hroom hc), within_committing]
              rfl
            · have hstage := stage_of_accepted hroom hc
              rw [perform_cons_ok (by rw [takeStep, hc])]
              -- a cancellation is noticed between the commit and the items that follow
              cases hx : c.cancelled world' with
              | true =>
                  rw [hx, if_pos rfl] at hstage
                  rw [perform_cons_error (by rw [takeStep, hx, if_pos rfl]),
                    finish_cons_error hstage]
                  rfl
              | false =>
                  rw [hx, if_neg Bool.false_ne_true] at hstage
                  rw [perform_cons_ok (by rw [takeStep, hx, if_neg Bool.false_ne_true]),
                    finish_cons_ok hstage]
                  exact ih ⟨⟨world', #[], _, _⟩, p.scanned + 1⟩

lemma transcode_eq_finish (c : Channel σ) (items : List (Except Error Entry)) (world : σ) :
    ((c.transcode items world).1.map fun _ => (), (c.transcode items world).2.batch.world) =
      c.finish items ⟨{ world }, 0⟩ := by
  unfold transcode finish
  rcases c.stageAll items ⟨{ world }, 0⟩ with ⟨_ | ⟨⟩, p⟩
  · rfl
  · rcases h : c.flush p.batch with ⟨_ | ⟨⟩, batch⟩ <;> simp [h, Except.map]

/-- Writing a stream is taking the steps of its schedule. -/
theorem transcode_eq_perform (c : Channel σ) (doing : List String)
    (items : List (Except Error Entry)) (world : σ) :
    (((c.transcode items world).1.map fun _ => ()).mapError (Error.within doing),
        (c.transcode items world).2.batch.world) =
      c.perform (schedule c.limit c.label doing [] 0 items) world := by
  have h := perform_schedule c doing items ⟨{ world }, 0⟩
  rw [← transcode_eq_finish] at h
  exact h.symm

/-- Writing a stream outside of any context is taking the steps of its schedule. -/
lemma transcode_eq_perform_nil (c : Channel σ) (items : List (Except Error Entry)) (world : σ) :
    ((c.transcode items world).1.map fun _ => (), (c.transcode items world).2.batch.world) =
      c.perform (schedule c.limit c.label [] [] 0 items) world := by
  rw [← transcode_eq_perform c []]
  rcases (c.transcode items world).1 with e | stats <;> rfl

end Channel

end EpochSplit
