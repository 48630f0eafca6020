import EpochSplit.Proofs.Batch.Staging
/-!
# Transcoding a range

What a pass over a range writes, for each transform: either what the transform makes of all pairs,
or the whole batches of what it made of the pairs in front of the first at which it fails
(`transcodes`).  Nothing else can happen to it while commits are accepted and nothing is cancelled.
-/

namespace EpochSplit

variable {σ τ : Type}

/-! ### Transforms -/

/-- The transform makes `made` of `pairs`, one after the other, and fails at none of them.  Its
state goes from `t` to `t'`. -/
inductive Transform.Makes (f : Transform τ) : List Entry → τ → List Entry → τ → Prop
  | nil {t : τ} : Makes f [] t [] t
  | cons {e entry : Entry} {pairs made : List Entry} {t t₁ t' : τ}
      (first : f e t = (.ok entry, t₁)) (others : Makes f pairs t₁ made t') :
      Makes f (e :: pairs) t (entry :: made) t'

namespace Transform

variable {f : Transform τ}

lemma Makes.length_eq {pairs made : List Entry} {t t' : τ} (h : f.Makes pairs t made t') :
    made.length = pairs.length := by
  induction h with
  | nil => rfl
  | cons _ _ ih => rw [List.length_cons, List.length_cons, ih]

/-- A transform fails at none of the pairs, or there is one at which it fails first. -/
theorem makes_total (f : Transform τ) (pairs : List Entry) (t : τ) :
    (∃ made t', f.Makes pairs t made t') ∨
      ∃ before e after made t₁ fault t₂, pairs = before ++ e :: after ∧
        f.Makes before t made t₁ ∧ f e t₁ = (.error fault, t₂) := by
  induction pairs generalizing t with
  | nil => exact .inl ⟨[], t, .nil⟩
  | cons e pairs ih =>
      rcases hfirst : f e t with ⟨fault | entry, t₁⟩
      · exact .inr ⟨[], e, pairs, [], t, fault, t₁, rfl, .nil, hfirst⟩
      · obtain ⟨made, t', hothers⟩ |
          ⟨before, e', after, made, t₂, fault, t₃, rfl, hbefore, hfault⟩ := ih t₁
        · exact .inl ⟨entry :: made, t', .cons hfirst hothers⟩
        · exact .inr ⟨e :: before, e', after, entry :: made, t₂, fault, t₃, rfl,
            .cons hfirst hbefore, hfault⟩

end Transform

/-! ### Visiting -/

lemma Source.visitAll_append {α : Type} (visit : Entry → α → Except Error Unit × α)
    {pairs : List Entry} {a a' : α} (h : visitAll visit pairs a = (.ok (), a'))
    (more : List Entry) : visitAll visit (pairs ++ more) a = visitAll visit more a' := by
  induction pairs generalizing a with
  | nil =>
      cases h
      rfl
  | cons e pairs ih =>
      rcases hvisit : visit e a with ⟨fault | ⟨⟩, a₁⟩
      · simp only [visitAll, hvisit] at h
        cases h
      · simp only [visitAll, hvisit] at h
        simp only [List.cons_append, visitAll, hvisit]
        exact ih h

namespace Channel

variable {c : Channel σ} {calm : σ → Prop} {f : Transform τ} {start : σ}
  {pairs : List Entry} {batches : List (List Entry)} {b : Batch σ}

/-! ### One pair -/

/-- While all is calm, no call of `stage` fails. -/
lemma Staged.stage_of_calm (hc : c.Calm calm) (h : c.Staged start pairs batches b)
    (hb : calm b.world) (e : Entry) :
    ∃ batches' b', c.stage e b = (.ok (), b') ∧ c.Staged start (pairs ++ [e]) batches' b' ∧
      calm b'.world := by
  have hsize : (b.staged.push e).size = b.staged.size + 1 := Array.size_push e
  have hlimit : max c.limit 1 = c.capacity := rfl
  have hroom := h.room
  by_cases hless : (b.staged.push e).size < max c.limit 1
  · exact ⟨_, _, stage_of_room hless, h.push (by omega) e, hb⟩
  · obtain ⟨world, hcommit, hworld⟩ := hc.commit (b.staged.push e).toList hb
    have hstage := stage_of_accepted hless hcommit
    rw [hc.cancelled hworld, if_neg Bool.false_ne_true] at hstage
    exact ⟨_, _, hstage, h.commit (by omega) hcommit, hworld⟩

lemma stageMade_of_ok {e entry : Entry} {p : Pass σ} {b : Batch σ} {t t' : τ}
    (hmade : f e t = (.ok entry, t')) (hstage : c.stage entry p.batch = (.ok (), b)) :
    c.stageMade f e (p, t) = (.ok (), ⟨b, p.scanned + 1⟩, t') := by
  simp only [stageMade, hmade, hstage]

lemma stageMade_of_error {e : Entry} {fault : Error} {p : Pass σ} {t t' : τ}
    (hfault : f e t = (.error fault, t')) :
    c.stageMade f e (p, t) = (.error fault, { p with scanned := p.scanned + 1 }, t') := by
  simp only [stageMade, hfault]

/-! ### All pairs -/

/-- As long as the transform does not fail, what it makes is staged. -/
theorem staged_visitAll (hc : c.Calm calm) {more made : List Entry} {t t' : τ}
    (hmade : f.Makes more t made t') {p : Pass σ} (h : c.Staged start pairs batches p.batch)
    (hp : calm p.batch.world) :
    ∃ batches' p', Source.visitAll (c.stageMade f) more (p, t) = (.ok (), p', t') ∧
      c.Staged start (pairs ++ made) batches' p'.batch ∧ calm p'.batch.world ∧
      p'.scanned = p.scanned + more.length := by
  induction hmade generalizing pairs batches p with
  | nil => exact ⟨batches, p, rfl, by rwa [List.append_nil], hp, rfl⟩
  | @cons e entry more made t t₁ t' first _ ih =>
      obtain ⟨batches₁, b, hstage, hstaged, hb⟩ := h.stage_of_calm hc hp entry
      obtain ⟨batches', p', hvisit, hall, hp', hscanned⟩ := ih (p := ⟨b, p.scanned + 1⟩) hstaged hb
      refine ⟨batches', p', ?_, ?_, hp', ?_⟩
      · rw [Source.visitAll, stageMade_of_ok first hstage]
        exact hvisit
      · rwa [List.append_assoc, List.singleton_append] at hall
      · rw [hscanned, List.length_cons, Nat.add_right_comm, Nat.add_assoc]

/-- So it is from the start of a pass on. -/
lemma staged_visit (hc : c.Calm calm) (hw : calm start) {made : List Entry} {t t' : τ}
    (hmade : f.Makes pairs t made t') :
    ∃ batches p, Source.visitAll (c.stageMade f) pairs (⟨{ world := start }, 0⟩, t) =
        (.ok (), p, t') ∧
      c.Staged start made batches p.batch ∧ calm p.batch.world ∧ p.scanned = pairs.length := by
  have h := staged_visitAll hc hmade (p := ⟨{ world := start }, 0⟩) (staged_nil c start) hw
  rwa [List.nil_append, Nat.zero_add] at h

/-- While all is calm, the rest of a stream is committed. -/
lemma Staged.flush_of_calm {held : σ → Contents} (ht : c.target.Tracks held Contents.overlay)
    (hc : c.Calm calm) (h : c.Staged start pairs batches b) (hb : calm b.world) :
    ∃ b', c.flush b = (.ok (), b') ∧ AllWritten held start pairs b' ∧
      b'.flushes = pairs.length ⌈/⌉ c.capacity := by
  rcases hflush : c.flush b with ⟨err | ⟨⟩, b'⟩
  · obtain ⟨fault, -, hrefused, -⟩ := h.refused_flush ht hflush
    obtain ⟨world, hcommit, -⟩ := hc.commit b.staged.toList hb
    rw [hrefused.commit] at hcommit
    cases hcommit
  · exact ⟨b', rfl, h.allWritten_flush ht hflush⟩

end Channel

/-! ### Passes -/

/-- What a pass over a range of an archive does to a world. -/
structure Contents.Transcodes (archive : Contents) (r : KeyRange) (c : Channel σ)
    (held : σ → Contents) (f : Transform τ) (world : σ) (t : τ) : Prop where
  /-- The pairs are those of the archive in the range. -/
  inRange : ∀ e, e ∈ archive.scan r ↔ archive.get? e.1 = some e.2 ∧ r.contains e.1 = true
  ascending : (archive.scan r).Pairwise fun e e' => compare e.1 e'.1 = .lt
  /-- The transform fails at none of them, or there is one at which it fails first. -/
  total : (∃ made t', f.Makes (archive.scan r) t made t') ∨
    ∃ before e after made t₁ fault t₂, archive.scan r = before ++ e :: after ∧
      f.Makes before t made t₁ ∧ f e t₁ = (.error fault, t₂)
  /-- If it fails at none of them, everything that it makes is written. -/
  done : ∀ {made t'}, f.Makes (archive.scan r) t made t' →
    ∃ p, (Source.ofContents archive).transcode r c f world t =
        (.ok ⟨(archive.scan r).length, (archive.scan r).length,
          (archive.scan r).length ⌈/⌉ c.capacity⟩, p, t') ∧
      held p.batch.world = (held world).overlay made
  /-- If it fails, its error is reported, it is applied to no later pair, and whole batches of what
  it made before are written. -/
  stopped : ∀ {before e after made t₁ fault t₂}, archive.scan r = before ++ e :: after →
    f.Makes before t made t₁ → f e t₁ = (.error fault, t₂) →
    ∃ p, (Source.ofContents archive).transcode r c f world t = (.error fault, p, t₂) ∧
      held p.batch.world =
        (held world).overlay (made.take (before.length - before.length % c.capacity))

/-- While commits are accepted and nothing is cancelled, a pass writes what the transform makes of
the pairs in the range, in the order of their keys; if the transform fails, the pass ends there. -/
theorem Source.transcodes {c : Channel σ} {held : σ → Contents} {calm : σ → Prop}
    (ht : c.target.Tracks held Contents.overlay) (hc : c.Calm calm) {world : σ} (hw : calm world)
    (archive : Contents) (r : KeyRange) (f : Transform τ) (t : τ) :
    archive.Transcodes r c held f world t where
  inRange _ := Contents.mem_scan
  ascending := archive.pairwise_scan r
  total := f.makes_total _ t
  done := by
    intro made t' hmade
    obtain ⟨batches, p, hvisit, hstaged, hp, hscanned⟩ := Channel.staged_visit hc hw hmade
    obtain ⟨b, hflush, hall, hflushes⟩ := hstaged.flush_of_calm ht hc hp
    have hwritten := hall.written
    rw [hmade.length_eq] at hwritten hflushes
    refine ⟨{ p with batch := b }, ?_, hall.contents⟩
    simp only [Source.transcode, Source.visit, Source.ofContents, hvisit, hflush, Pass.stats,
      hscanned, hwritten, hflushes]
  stopped := by
    intro before e after made t₁ fault t₂ hscan hmade hfault
    obtain ⟨batches, p, hvisit, hstaged, -, -⟩ := Channel.staged_visit hc hw hmade
    refine ⟨{ p with scanned := p.scanned + 1 }, ?_, ?_⟩
    · -- the visitor fails here, so the pairs that come after do not matter
      simp only [Source.transcode, Source.visit, Source.ofContents, hscan,
        Source.visitAll_append _ hvisit, Source.visitAll, Channel.stageMade_of_error hfault]
    · rw [hstaged.commits.view ht, hstaged.flatten_eq, hmade.length_eq]

/-! ### Transforms without a state -/

/-- A transform that keeps no state. -/
def Transform.stateless (f : Entry → Except Error Entry) : Transform Unit := fun e t => (f e, t)

/-- Staging what such a transform makes of pairs is staging the items that it makes of them. -/
lemma Channel.visitAll_stateless (c : Channel σ) (f : Entry → Except Error Entry)
    (pairs : List Entry) (p : Pass σ) :
    Source.visitAll (c.stageMade (.stateless f)) pairs (p, ()) =
      ((c.stageAll (pairs.map f) p).1, (c.stageAll (pairs.map f) p).2, ()) := by
  induction pairs generalizing p with
  | nil => rfl
  | cons e pairs ih =>
      rw [List.map_cons]
      rcases hmade : f e with fault | entry
      · rw [Source.visitAll, stageMade_of_error (by rw [Transform.stateless, hmade]), stageAll]
      · rw [stageAll]
        rcases hstage : c.stage entry p.batch with ⟨fault | ⟨⟩, b⟩
        · simp only [Source.visitAll, stageMade, Transform.stateless, hmade, hstage]
        · rw [Source.visitAll, stageMade_of_ok (by rw [Transform.stateless, hmade]) hstage]
          exact ih _

/-- A pass with such a transform writes the stream of the items that it makes.  An archive that
cannot be scanned makes a single item. -/
theorem Source.transcode_stateless (s : Source) (r : KeyRange) (c : Channel σ)
    (f : Entry → Except Error Entry) (world : σ) :
    (s.transcode r c (.stateless f) world ()).1 = (c.transcode (s.transformed r f) world).1 ∧
      (s.transcode r c (.stateless f) world ()).2.1.batch =
        (c.transcode (s.transformed r f) world).2.batch := by
  cases hscan : s.scan r with
  | error fault =>
      simp only [transcode, visit, transformed, items, hscan]
      exact ⟨rfl, rfl⟩
  | ok pairs =>
      have hitems : s.transformed r f = pairs.map f := by
        rw [transformed, items, hscan, List.map_map]
        rfl
      have hvisit := c.visitAll_stateless f pairs ⟨{ world }, 0⟩
      rw [hitems, Channel.transcode]
      simp only [transcode, visit, hscan, hvisit]
      rcases c.stageAll (pairs.map f) ⟨{ world }, 0⟩ with ⟨fault | ⟨⟩, p⟩
      · exact ⟨rfl, rfl⟩
      · rcases hflush : c.flush p.batch with ⟨fault | ⟨⟩, b⟩ <;> simp only [hflush, and_self]

/-! ### Stores in memory -/

namespace MemoryStore

/-- A channel to a store in memory that takes two records at a time. -/
def undisturbed : Channel MemoryStore := { inPairs with cancelled := fun _ => false }

/-- A store in memory that was not told to refuse commits takes each of them. -/
lemma calm_undisturbed : undisturbed.Calm (·.refusal = none) where
  commit batch world h := by
    have haccepts : ¬world.refuses = true := by simp [refuses, h]
    exact ⟨_, if_neg haccepts, h⟩
  cancelled _ := rfl

/-- Writes each key under its value and notes the keys it was applied to; an empty value is no
key. -/
def byValue : Transform (List Bytes) := fun e seen =>
  (if e.2.isEmpty then .error (.codec (.invalidKey .tickData 0 "empty")) else .ok (e.2, e.1),
    seen ++ [e.1])

/-- Two of the values are the same, and the fourth is empty. -/
def fiveValues : List Entry := [([1], [7]), ([2], [7]), ([3], [8]), ([4], []), ([5], [9])]

/-- A pass of which three pairs are written under new names and the fourth is not: two of the three
were committed, and the fifth was not looked at. -/
theorem transcodes_undisturbed :
    ∃ p, (Source.ofContents (Contents.overlay ∅ fiveValues)).transcode ⟨[1], [6]⟩ undisturbed
        byValue {} [] =
        (.error (.codec (.invalidKey .tickData 0 "empty")), p, [[1], [2], [3], [4]]) ∧
      p.batch.world.contents = Contents.overlay ∅ [([7], [1]), ([7], [2])] := by
  have hpass : Contents.Transcodes (.overlay ∅ fiveValues) ⟨[1], [6]⟩ undisturbed contents byValue
      {} [] := Source.transcodes tracks_contents calm_undisturbed rfl _ _ _ _
  have hscan : Contents.scan (.overlay ∅ fiveValues) ⟨[1], [6]⟩ =
      [([1], [7]), ([2], [7]), ([3], [8])] ++ ([4], []) :: [([5], [9])] := by decide
  exact hpass.stopped hscan (.cons rfl (.cons rfl (.cons rfl .nil))) rfl

end MemoryStore

end EpochSplit
