import EpochSplit.Proofs.Batch.Transcoding
import EpochSplit.Proofs.Fold.Order
import Mathlib.Algebra.GroupWithZero.Nat
/-!
# Passes that fold

A pass that folds is a pass whose transform offers records to their groups on the way
(`stageOffered_eq`).  Two passes do the same to the world if their transforms make the same of each
pair (`Source.transcode_alike`), and offering a record makes a difference only if it belongs to no
group.  So passes that fold write what passes write that drop the records, and where a record
belongs to no group they stop as if the transform had failed there (`transcodeEach_agrees`).

Without a state, a pass that folds is the one over a stream of items, statistics included
(`transcodeRange_stateless`).  If it ends well, its fold has observed all records of the stream
(`eq_observeAll_of_transcode`).
-/

namespace EpochSplit

variable {σ τ υ V : Type}

/-! ### Transforms that go alike -/

/-- Two outcomes that are the same up to the error, where an error of the one goes with an error of
the other. -/
inductive OutcomeAlike (goesWith : Error → Error → Prop) {α : Type} :
    Except Error α → Except Error α → Prop
  | ok (a : α) : OutcomeAlike goesWith (.ok a) (.ok a)
  | error {e e' : Error} (h : goesWith e e') : OutcomeAlike goesWith (.error e) (.error e')

namespace OutcomeAlike

variable {goesWith : Error → Error → Prop} {α : Type} {a b : Except Error α}

lemma refl (hrefl : ∀ e, goesWith e e) (a : Except Error α) : OutcomeAlike goesWith a a := by
  cases a with
  | error e => exact .error (hrefl e)
  | ok a => exact .ok a

lemma eq_of_eq (h : OutcomeAlike Eq a b) : a = b := by
  cases h with
  | ok a => rfl
  | error h => rw [h]

end OutcomeAlike

/-- Two transforms that make the same of each pair, up to the error, as long as their states are
related. -/
def Transform.Alike (goesWith : Error → Error → Prop) (related : τ → υ → Prop) (f : Transform τ)
    (g : Transform υ) : Prop :=
  ∀ e t u, related t u → OutcomeAlike goesWith (f e t).1 (g e u).1 ∧ related (f e t).2 (g e u).2

/-- Two passes that come to the same, up to the error and with related states. -/
structure PassAlike (goesWith : Error → Error → Prop) (related : τ → υ → Prop) {α : Type}
    (a : Except Error α × Pass σ × τ) (b : Except Error α × Pass σ × υ) : Prop where
  outcome : OutcomeAlike goesWith a.1 b.1
  pass : a.2.1 = b.2.1
  state : related a.2.2 b.2.2

section Alike

variable {goesWith : Error → Error → Prop} {related : τ → υ → Prop} {f : Transform τ}
  {g : Transform υ} {t : τ} {u : υ}

lemma Channel.stageMade_alike (hrefl : ∀ e, goesWith e e) (hfg : f.Alike goesWith related g)
    (c : Channel σ) (e : Entry) (p : Pass σ) (htu : related t u) :
    PassAlike goesWith related (c.stageMade f e (p, t)) (c.stageMade g e (p, u)) := by
  obtain ⟨hmade, hstate⟩ := hfg e t u htu
  rcases hf : f e t with ⟨r, t'⟩
  rcases hg : g e u with ⟨r', u'⟩
  simp only [hf, hg] at hmade hstate
  simp only [stageMade, hf, hg]
  cases hmade with
  | ok entry => exact ⟨.refl hrefl _, rfl, hstate⟩
  | error h => exact ⟨.error h, rfl, hstate⟩

lemma Channel.visitAll_alike (hrefl : ∀ e, goesWith e e) (hfg : f.Alike goesWith related g)
    (c : Channel σ) (pairs : List Entry) (p : Pass σ) (htu : related t u) :
    PassAlike goesWith related (Source.visitAll (c.stageMade f) pairs (p, t))
      (Source.visitAll (c.stageMade g) pairs (p, u)) := by
  induction pairs generalizing p t u with
  | nil => exact ⟨.ok (), rfl, htu⟩
  | cons e pairs ih =>
      obtain ⟨hr, hp, hstate⟩ := c.stageMade_alike hrefl hfg e p htu
      rcases hf : c.stageMade f e (p, t) with ⟨r, p₁, t'⟩
      rcases hg : c.stageMade g e (p, u) with ⟨r', p₂, u'⟩
      simp only [hf, hg] at hr hp hstate
      subst hp
      simp only [Source.visitAll, hf, hg]
      cases hr with
      | ok a => exact ih p₁ hstate
      | error h => exact ⟨.error h, rfl, hstate⟩

/-- Passes with transforms that go alike end alike and do the same to the world. -/
theorem Source.transcode_alike (hrefl : ∀ e, goesWith e e) (hfg : f.Alike goesWith related g)
    (s : Source) (r : KeyRange) (c : Channel σ) (world : σ) (htu : related t u) :
    PassAlike goesWith related (s.transcode r c f world t) (s.transcode r c g world u) := by
  cases hscan : s.scan r with
  | error fault =>
      simp only [transcode, visit, hscan]
      exact ⟨.refl hrefl _, rfl, htu⟩
  | ok pairs =>
      obtain ⟨hr, hp, hstate⟩ := c.visitAll_alike hrefl hfg pairs ⟨{ world }, 0⟩ htu
      rcases hf : visitAll (c.stageMade f) pairs (⟨{ world }, 0⟩, t) with ⟨r₁, p₁, t'⟩
      rcases hg : visitAll (c.stageMade g) pairs (⟨{ world }, 0⟩, u) with ⟨r₂, p₂, u'⟩
      simp only [hf, hg] at hr hp hstate
      subst hp
      simp only [transcode, visit, hscan, hf, hg]
      cases hr with
      | error h => exact ⟨.error h, rfl, hstate⟩
      | ok a =>
          rcases hflush : c.flush p₁.batch with ⟨fault | ⟨⟩, b⟩
          · simp only [hflush]
            exact ⟨.refl hrefl _, rfl, hstate⟩
          · simp only [hflush]
            exact ⟨.ok _, rfl, hstate⟩

end Alike

/-! ### Several passes -/

/-- How passes over several ranges ended, and where they led. -/
structure Passes (σ τ : Type) where
  outcomes : List (Except Error PassStats)
  world : σ
  state : τ

/-- Passes over ranges one after the other.  It is left to the caller to stop where one of them
fails. -/
def Source.transcodeEach (s : Source) (c : Channel σ) (f : Transform τ) :
    List KeyRange → σ → τ → Passes σ τ
  | [], world, t => ⟨[], world, t⟩
  | r :: ranges, world, t =>
      let first := s.transcode r c f world t
      let others := s.transcodeEach c f ranges first.2.1.batch.world first.2.2
      { others with outcomes := first.1 :: others.outcomes }

/-- Passes that fold over ranges one after the other. -/
def Fold.transcodeEach [Attributed V] (f : Fold V) (s : Source) (c : Channel σ)
    (decode : Decoder V τ) : List KeyRange → σ → τ → Passes σ (Fold V × τ)
  | [], world, t => ⟨[], world, f, t⟩
  | r :: ranges, world, t =>
      let first := f.transcodeRange s r c decode world t
      let others :=
        first.2.2.1.transcodeEach s c decode ranges first.2.1.batch.world first.2.2.2
      { others with outcomes := first.1 :: others.outcomes }

/-- Several passes that come to the same, up to the errors and with related states. -/
structure PassesAlike (goesWith : Error → Error → Prop) (related : τ → υ → Prop)
    (a : Passes σ τ) (b : Passes σ υ) : Prop where
  outcomes : List.Forall₂ (OutcomeAlike goesWith) a.outcomes b.outcomes
  world : a.world = b.world
  state : related a.state b.state

lemma PassesAlike.outcomes_eq {related : τ → υ → Prop} {a : Passes σ τ} {b : Passes σ υ}
    (h : PassesAlike Eq related a b) : a.outcomes = b.outcomes :=
  List.forall₂_eq_eq_eq ▸ h.outcomes.imp fun _ _ => OutcomeAlike.eq_of_eq

/-- Passes with transforms that go alike end alike, one by one, and do the same to the world. -/
theorem Source.transcodeEach_alike {goesWith : Error → Error → Prop} {related : τ → υ → Prop}
    {f : Transform τ} {g : Transform υ} (hrefl : ∀ e, goesWith e e)
    (hfg : f.Alike goesWith related g) (s : Source) (c : Channel σ) (ranges : List KeyRange)
    (world : σ) {t : τ} {u : υ} (htu : related t u) :
    PassesAlike goesWith related (s.transcodeEach c f ranges world t)
      (s.transcodeEach c g ranges world u) := by
  induction ranges generalizing world t u with
  | nil => exact ⟨.nil, rfl, htu⟩
  | cons r ranges ih =>
      obtain ⟨hr, hp, hstate⟩ := s.transcode_alike hrefl hfg r c world htu
      obtain ⟨hothers, hworld, hend⟩ := ih (s.transcode r c f world t).2.1.batch.world hstate
      rw [hp] at hothers hworld hend
      simp only [transcodeEach, hp]
      exact ⟨.cons hr hothers, hworld, hend⟩

/-! ### Passes that end well -/

section Makes

variable {f : Transform τ}

lemma Transform.Makes.append {pairs pairs' made made' : List Entry} {t t₁ t' : τ}
    (h : f.Makes pairs t made t₁) (h' : f.Makes pairs' t₁ made' t') :
    f.Makes (pairs ++ pairs') t (made ++ made') t' := by
  induction h with
  | nil => exact h'
  | cons first _ ih => exact .cons first (ih h')

/-- A visit that ends well fails at no pair. -/
lemma Channel.makes_of_visitAll {c : Channel σ} {pairs : List Entry} {p p' : Pass σ} {t t' : τ}
    (h : Source.visitAll (c.stageMade f) pairs (p, t) = (.ok (), p', t')) :
    ∃ made, f.Makes pairs t made t' := by
  induction pairs generalizing p t with
  | nil =>
      cases h
      exact ⟨[], .nil⟩
  | cons e pairs ih =>
      rcases hmade : f e t with ⟨fault | entry, t₁⟩
      · rw [Source.visitAll, stageMade_of_error hmade] at h
        cases h
      · rcases hstage : c.stage entry p.batch with ⟨fault | ⟨⟩, b⟩
        · simp only [Source.visitAll, stageMade, hmade, hstage] at h
          cases h
        · rw [Source.visitAll, stageMade_of_ok hmade hstage] at h
          obtain ⟨made, hothers⟩ := ih h
          exact ⟨entry :: made, .cons hmade hothers⟩

namespace Source

/-- The pairs that a scan of a range hands over. -/
def pairs (s : Source) (r : KeyRange) : List Entry :=
  (s.scan r).toOption.getD []

/-- So does a pass that ends well. -/
lemma makes_of_transcode {s : Source} {r : KeyRange} {c : Channel σ} {world : σ} {t : τ}
    (h : (s.transcode r c f world t).1.isOk) :
    ∃ made, f.Makes (s.pairs r) t made (s.transcode r c f world t).2.2 := by
  cases hscan : s.scan r with
  | error fault =>
      simp only [transcode, visit, hscan] at h
      cases h
  | ok entries =>
      rcases hvisit : visitAll (c.stageMade f) entries (⟨{ world }, 0⟩, t) with
        ⟨fault | ⟨⟩, p, t'⟩
      · simp only [transcode, visit, hscan, hvisit] at h
        cases h
      · have hstate : (s.transcode r c f world t).2.2 = t' := by
          simp only [transcode, visit, hscan, hvisit]
          rcases c.flush p.batch with ⟨fault | ⟨⟩, b⟩ <;> rfl
        rw [hstate, pairs, hscan]
        exact Channel.makes_of_visitAll hvisit

/-- The scan of a pass that ends well ends well. -/
lemma items_of_transcode {s : Source} {r : KeyRange} {c : Channel σ} {world : σ} {t : τ}
    (h : (s.transcode r c f world t).1.isOk) : s.items r = (s.pairs r).map .ok := by
  cases hscan : s.scan r with
  | error fault =>
      simp only [transcode, visit, hscan] at h
      cases h
  | ok entries => rw [items, pairs, hscan, Except.toOption, Option.getD_some]

/-- If each of several passes ends well, there is no pair in all of their ranges that fails. -/
lemma makes_of_transcodeEach {s : Source} {c : Channel σ} {ranges : List KeyRange} {world : σ}
    {t : τ} (h : ∀ o ∈ (s.transcodeEach c f ranges world t).outcomes, o.isOk) :
    ∃ made, f.Makes (ranges.flatMap s.pairs) t made
      (s.transcodeEach c f ranges world t).state := by
  induction ranges generalizing world t with
  | nil => exact ⟨[], .nil⟩
  | cons r ranges ih =>
      rw [transcodeEach] at h ⊢
      obtain ⟨made, hfirst⟩ := makes_of_transcode (h _ List.mem_cons_self)
      obtain ⟨made', hothers⟩ := ih fun o ho => h o (List.mem_cons_of_mem _ ho)
      exact ⟨made ++ made', hfirst.append hothers⟩

end Source

end Makes

namespace PassStats

/-- What passes did together. -/
def sum (passes : List PassStats) : PassStats :=
  ⟨(passes.map scanned).sum, (passes.map written).sum, (passes.map flushes).sum⟩

@[simp] lemma add_sum_nil (total : PassStats) : total + sum [] = total := rfl

@[simp] lemma add_sum_singleton (total stats : PassStats) :
    total + sum [stats] = total + stats := by
  simp [sum]

lemma add_sum_append (total : PassStats) (passes more : List PassStats) :
    total + sum (passes ++ more) = total + sum passes + sum more := by
  simp only [sum, List.map_append, List.sum_append, HAdd.hAdd, Add.add]
  simp only [Nat.add_eq, Nat.add_assoc]

end PassStats

namespace Fold

/-! ### Dropping and noting records -/

/-- What is written of a pair when its record is dropped. -/
def Decoder.dropping (decode : Decoder V τ) : Transform τ := fun e t =>
  ((decode e t).1.map Prod.snd, (decode e t).2)

/-- What is written of a pair when its record is noted. -/
def Decoder.noting (decode : Decoder V τ) : Transform (τ × List V) := fun e s =>
  match decode e s.1 with
  | (.error fault, t) => (.error fault, t, s.2)
  | (.ok (v, entry), t) => (.ok entry, t, s.2 ++ [v])

/-- Noting the records makes no difference to what is written. -/
lemma noting_alike (decode : Decoder V τ) :
    decode.noting.Alike Eq (fun s t => s.1 = t) decode.dropping := by
  rintro e ⟨t, vs⟩ - rfl
  simp only [Decoder.noting, Decoder.dropping]
  rcases decode e t with ⟨fault | ⟨v, entry⟩, t'⟩
  · exact ⟨.error rfl, rfl⟩
  · exact ⟨.ok entry, rfl⟩

/-- The records that pairs are decoded to, one after the other, up to the first that is not
decoded. -/
def Decoder.readAll (decode : Decoder V τ) : List Entry → τ → List V
  | [], _ => []
  | e :: pairs, t =>
      match decode e t with
      | (.error _, _) => []
      | (.ok (v, _), t) => v :: decode.readAll pairs t

/-- If no pair fails, the records of all of them are noted. -/
lemma readAll_of_makes {decode : Decoder V τ} {pairs made : List Entry} {a b : τ × List V}
    (h : decode.noting.Makes pairs a made b) : b.2 = a.2 ++ decode.readAll pairs a.1 := by
  induction h with
  | nil => exact (List.append_nil _).symm
  | @cons e entry pairs made a a' b first _ ih =>
      simp only [Decoder.noting] at first
      rw [Decoder.readAll]
      rcases hdecode : decode e a.1 with ⟨fault | ⟨v, entry'⟩, t⟩
      · simp only [hdecode] at first
        cases first
      · simp only [hdecode] at first
        cases first
        rw [ih, List.append_assoc, List.singleton_append]

/-- The records of the items that were looked at, when the first of them is a record. -/
lemma records_take_cons_ok {v : V} {entry : Entry} {items : List (Except Error (V × Entry))}
    {n scanned : Nat} (h : scanned + 1 ≤ n) :
    records ((.ok (v, entry) :: items).take (n - scanned)) =
      v :: records (items.take (n - (scanned + 1))) := by
  obtain ⟨k, rfl⟩ := Nat.exists_eq_add_of_le h
  have htake : scanned + 1 + k - scanned = k + 1 := by omega
  rw [htake, Nat.add_sub_cancel_left]
  rfl

/-! ### Offering records on the way -/

section Stats

variable (f : Fold V) (stats : PassStats)

lemma offer_withStats (epoch : UInt32) (i : Nat) (v : V) :
    ({ f with stats } : Fold V).offer epoch i v = { f.offer epoch i v with stats } := by
  unfold offer
  simp only
  split <;> rfl

/-- A record is offered to the same group as long as the ranges are the same. -/
lemma groupOf_congr [Attributed V] {f g : Fold V} (h : g.index = f.index) (v : V) :
    g.groupOf v = f.groupOf v := by
  unfold groupOf
  rw [h]

lemma index_observeInPlace [Attributed V] (v : V) : (f.observeInPlace v).2.index = f.index := by
  rcases hgroup : f.groupOf v with fault | ⟨epoch, i⟩
  · rw [observeInPlace_of_error hgroup]
  · rw [observeInPlace_of_ok hgroup, offer]
    split <;> rfl

end Stats

variable [Attributed V]

/-- What is written of a pair when its record is offered to its group first. -/
def Decoder.folding (decode : Decoder V τ) : Transform (Fold V × τ) := fun e s =>
  match decode e s.2 with
  | (.error fault, t) => (.error fault, s.1, t)
  | (.ok (v, entry), t) =>
      match s.1.observeInPlace v with
      | (.error fault, f) => (.error (.consistency fault), f, t)
      | (.ok (), f) => (.ok entry, f, t)

/-- What a pass that folds does with a pair, a pass with such a transform does. -/
theorem stageOffered_eq (c : Channel σ) (decode : Decoder V τ) :
    stageOffered c decode = c.stageMade decode.folding := by
  funext e p
  obtain ⟨p, f, t⟩ := p
  simp only [stageOffered, Channel.stageMade, Decoder.folding]
  rcases decode e t with ⟨fault | ⟨v, entry⟩, t'⟩
  · rfl
  · rcases hobserve : f.observeInPlace v with ⟨fault | ⟨⟩, f'⟩ <;> simp only [hobserve]

lemma transcodeRange_eq (f : Fold V) (s : Source) (r : KeyRange) (c : Channel σ)
    (decode : Decoder V τ) (world : σ) (t : τ) :
    f.transcodeRange s r c decode world t =
      let pass := s.transcode r c decode.folding world (f, t)
      let stats := pass.2.2.1.stats + .sum pass.1.toOption.toList
      (pass.1, pass.2.1, { pass.2.2.1 with stats }, pass.2.2.2) := by
  rw [transcodeRange, stageOffered_eq, Source.transcode]
  rcases s.visit r (c.stageMade decode.folding) (⟨{ world }, 0⟩, f, t) with
    ⟨fault | ⟨⟩, p, f', t'⟩
  · rfl
  · rcases hflush : c.flush p.batch with ⟨fault | ⟨⟩, b⟩
    · simp only [hflush, Except.toOption, Option.toList_none, PassStats.add_sum_nil]
    · simp only [hflush, Except.toOption, Option.toList_some, PassStats.add_sum_singleton]

lemma stats_observeInPlace (f : Fold V) (v : V) : (f.observeInPlace v).2.stats = f.stats := by
  rcases hgroup : f.groupOf v with fault | ⟨epoch, i⟩
  · rw [observeInPlace_of_error hgroup]
  · rw [observeInPlace_of_ok hgroup, offer]
    split <;> rfl

/-- What a pass did is counted when it is over, and not on the way. -/
lemma stats_transcodeRange (f : Fold V) (s : Source) (r : KeyRange) (c : Channel σ)
    (decode : Decoder V τ) (world : σ) (t : τ) :
    (f.transcodeRange s r c decode world t).2.2.1.stats =
      f.stats + .sum (f.transcodeRange s r c decode world t).1.toOption.toList := by
  have hself : decode.folding.Alike Eq (fun a b => a = b ∧ a.1.stats = f.stats)
      decode.folding := by
    rintro e ⟨g, t⟩ - ⟨rfl, hstats⟩
    refine ⟨.refl (fun _ => rfl) _, rfl, ?_⟩
    simp only [Decoder.folding]
    rcases decode e t with ⟨fault | ⟨v, entry⟩, t'⟩
    · exact hstats
    · have hobserve := stats_observeInPlace g v
      rcases hresult : g.observeInPlace v with ⟨fault | ⟨⟩, g'⟩ <;>
        · rw [hresult] at hobserve
          simp only [hresult]
          exact hobserve.trans hstats
  have hpass := s.transcode_alike (fun _ => rfl) hself r c world (t := (f, t)) ⟨rfl, rfl⟩
  simp only [transcodeRange_eq, hpass.state.2]

/-- Passes that fold go like passes with a transform that goes like offering the records. -/
theorem transcodeEach_alike {goesWith : Error → Error → Prop} {related : Fold V × τ → υ → Prop}
    {decode : Decoder V τ} {g : Transform υ} (hrefl : ∀ e, goesWith e e)
    (hfg : decode.folding.Alike goesWith related g)
    (hstats : ∀ {f t u}, related (f, t) u → ∀ stats, related ({ f with stats }, t) u) (s : Source)
    (c : Channel σ) (ranges : List KeyRange) (world : σ) {f : Fold V} {t : τ} {u : υ}
    (htu : related (f, t) u) :
    PassesAlike goesWith related (f.transcodeEach s c decode ranges world t)
      (s.transcodeEach c g ranges world u) := by
  induction ranges generalizing f world t u with
  | nil => exact ⟨.nil, rfl, htu⟩
  | cons r ranges ih =>
      obtain ⟨hr, hp, hstate⟩ := s.transcode_alike hrefl hfg r c world htu
      rw [transcodeEach, Source.transcodeEach, transcodeRange_eq]
      simp only [hp]
      have hothers := ih (s.transcode r c g world u).2.1.batch.world (hstats hstate
        ((s.transcode r c decode.folding world (f, t)).2.2.1.stats +
          .sum (s.transcode r c decode.folding world (f, t)).1.toOption.toList))
      exact ⟨.cons hr hothers.outcomes, hothers.world, hothers.state⟩

/-- The passes that ended well make up what the fold counts. -/
lemma stats_transcodeEach (f : Fold V) (s : Source) (c : Channel σ) (decode : Decoder V τ)
    (ranges : List KeyRange) (world : σ) (t : τ) :
    (f.transcodeEach s c decode ranges world t).state.1.stats =
      f.stats +
        .sum ((f.transcodeEach s c decode ranges world t).outcomes.filterMap Except.toOption) := by
  induction ranges generalizing f world t with
  | nil => rfl
  | cons r ranges ih =>
      have hcons : ∀ (o : Except Error PassStats) (others : List (Except Error PassStats)),
          (o :: others).filterMap Except.toOption =
            o.toOption.toList ++ others.filterMap Except.toOption := by
        intro o others
        cases o <;> rfl
      simp only [transcodeEach, ih, stats_transcodeRange, hcons, PassStats.add_sum_append]

/-! ### Offering or refusing records -/

/-- What is written of a pair when it is an error that its record belongs to no group. -/
def Decoder.refusing (decode : Decoder V τ) (f : Fold V) (refusal : V → Error) : Transform τ :=
  fun e t =>
    match decode e t with
    | (.error fault, t) => (.error fault, t)
    | (.ok (v, entry), t) =>
        match f.groupOf v with
        | .error _ => (.error (refusal v), t)
        | .ok _ => (.ok entry, t)

/-- The errors are the same, or the second is the refusal of a record for which the first says why
it belongs to no group. -/
def StandsFor (f : Fold V) (refusal : V → Error) (e e' : Error) : Prop :=
  e = e' ∨ ∃ v fault, f.groupOf v = .error fault ∧ e = .consistency fault ∧ e' = refusal v

lemma index_observeEach (f : Fold V) (vs : List V) : (f.observeEach vs).index = f.index := by
  rw [observeEach_eq_observeAll]
  exact (rules_observeAll f vs).1

/-- A fold that began as `f` and observed the records that were noted. -/
def HasObserved (f : Fold V) (a : Fold V × τ) (b : τ × List V) : Prop :=
  a.1 = { f.observeEach b.2 with stats := a.1.stats } ∧ a.2 = b.1

lemma HasObserved.withStats {f g : Fold V} {t : τ} {b : τ × List V} (h : f.HasObserved (g, t) b)
    (stats : PassStats) : f.HasObserved ({ g with stats }, t) b := by
  obtain ⟨hg, ht⟩ := h
  simp only at hg
  refine ⟨?_, ht⟩
  rw [hg]

/-- Offering records that all belong to groups is writing the same and noting the records. -/
lemma folding_alike {f : Fold V} {decode : Decoder V τ}
    (hplaced : ∀ e t v entry, (decode e t).1 = .ok (v, entry) →
      ∃ epoch i, f.index.Places v epoch i) :
    decode.folding.Alike Eq f.HasObserved decode.noting := by
  rintro e ⟨g, t⟩ ⟨-, vs⟩ ⟨hg, rfl⟩
  simp only at hg
  simp only [Decoder.folding, Decoder.noting]
  rcases hdecode : decode e t with ⟨fault | ⟨v, entry⟩, t'⟩
  · exact ⟨.error rfl, hg, rfl⟩
  · obtain ⟨epoch, i, hv⟩ := hplaced e t v entry (congrArg Prod.fst hdecode)
    have hgroup := groupOf_eq_ok_iff.2 hv
    have hgroup' : (f.observeEach vs).groupOf v = .ok (epoch, i) := by
      rwa [groupOf_congr (index_observeEach f vs)]
    have htaken : g.groupOf v = .ok (epoch, i) := by
      have hindex : g.index = (f.observeEach vs).index := by rw [hg]
      rwa [groupOf_congr hindex]
    simp only [observeInPlace_of_ok htaken]
    refine ⟨.ok entry, ?_, rfl⟩
    rw [observeEach_concat, observeInPlace_of_ok hgroup', hg, offer_withStats]

/-- Offering records is refusing those that belong to no group. -/
lemma folding_alike_refusing (f : Fold V) (decode : Decoder V τ) (refusal : V → Error) :
    decode.folding.Alike (f.StandsFor refusal) (fun a t => a.1.index = f.index ∧ a.2 = t)
      (decode.refusing f refusal) := by
  rintro e ⟨g, t⟩ - ⟨hindex, rfl⟩
  simp only at hindex
  simp only [Decoder.folding, Decoder.refusing]
  rcases decode e t with ⟨fault | ⟨v, entry⟩, t'⟩
  · exact ⟨.error (.inl rfl), hindex, rfl⟩
  · have hsame := groupOf_congr hindex v
    have htaken := index_observeInPlace g v
    rcases hgroup : f.groupOf v with fault | ⟨epoch, i⟩
    · rw [hgroup] at hsame
      simp only [observeInPlace_of_error hsame, hgroup]
      exact ⟨.error (Or.inr ⟨v, fault, hgroup, rfl, rfl⟩), hindex, trivial⟩
    · rw [hgroup] at hsame
      rw [observeInPlace_of_ok hsame] at htaken
      simp only [observeInPlace_of_ok hsame, hgroup]
      exact ⟨.ok entry, htaken.trans hindex, trivial⟩

/-! ### Decoders without a state -/

section Stateless

lemma attributed_congr {f g : Fold V} (h : g.index = f.index)
    (items : List (Except Error (V × Entry))) : g.attributed items = f.attributed items := by
  simp only [attributed, groupOf_congr h]

lemma scanned_le_stageAll (c : Channel σ) (items : List (Except Error Entry)) (p : Pass σ) :
    p.scanned ≤ (c.stageAll items p).2.scanned := by
  induction items generalizing p with
  | nil => exact le_rfl
  | cons item items ih =>
      rcases item with fault | entry
      · exact Nat.le_succ _
      · rw [Channel.stageAll]
        rcases c.stage entry p.batch with ⟨fault | ⟨⟩, b⟩
        · exact Nat.le_succ _
        · exact (Nat.le_succ _).trans (ih ⟨b, p.scanned + 1⟩)

lemma attributed_cons_of_error {f : Fold V} {v : V} {fault : ConsistencyFault}
    (h : f.groupOf v = .error fault) (entry : Entry) (items : List (Except Error (V × Entry))) :
    f.attributed (.ok (v, entry) :: items) = .error (.consistency fault) :: f.attributed items := by
  rw [attributed, List.map_cons, ← attributed]
  simp only [bind, Except.bind, h, Except.mapError]

lemma attributed_cons_of_ok {f : Fold V} {v : V} {group : UInt32 × Nat}
    (h : f.groupOf v = .ok group) (entry : Entry) (items : List (Except Error (V × Entry))) :
    f.attributed (.ok (v, entry) :: items) = .ok entry :: f.attributed items := by
  rw [attributed, List.map_cons, ← attributed]
  simp only [bind, Except.bind, h, Except.mapError]
  rfl

/-- Visiting pairs and offering their records on the way is staging the items of a stream, and
observing the records of those that were looked at. -/
lemma visitAll_stageOffered (decode : Entry → Except Error (V × Entry)) (f : Fold V)
    (c : Channel σ) (pairs : List Entry) (p : Pass σ) :
    Source.visitAll (stageOffered c (.stateless decode)) pairs (p, f, ()) =
      let staged := c.stageAll (f.attributed (pairs.map decode)) p
      (staged.1, staged.2,
        f.observeAll (records ((pairs.map decode).take (staged.2.scanned - p.scanned))), ()) := by
  induction pairs generalizing f p with
  | nil =>
      simp only [List.map_nil, List.take_nil]
      rfl
  | cons e pairs ih =>
      rw [Source.visitAll, List.map_cons]
      rcases hdecode : decode e with fault | ⟨v, entry⟩
      · have hitems : f.attributed (.error fault :: pairs.map decode) =
            .error fault :: f.attributed (pairs.map decode) := rfl
        simp only [stageOffered, Decoder.stateless, hdecode, hitems, Channel.stageAll]
        rw [Nat.add_sub_cancel_left]
        rfl
      · rcases hgroup : f.groupOf v with fault | ⟨epoch, i⟩
        · simp only [stageOffered, Decoder.stateless, hdecode, observeInPlace_of_error hgroup,
            attributed_cons_of_error hgroup, Channel.stageAll]
          rw [records_take_cons_ok le_rfl, Nat.sub_self]
          simp [observeAll, records, observe_of_error hgroup]
        · have hindex : (f.offer epoch i v).index = f.index := by
            have h := index_observeInPlace f v
            rwa [observeInPlace_of_ok hgroup] at h
          have hobserve : ∀ vs, f.observeAll (v :: vs) = (f.offer epoch i v).observeAll vs := by
            intro vs
            rw [observeAll, List.foldl_cons, observe_of_ok hgroup, ← observeAll]
          rw [attributed_cons_of_ok hgroup, Channel.stageAll]
          rcases hstage : c.stage entry p.batch with ⟨fault | ⟨⟩, b⟩
          · simp only [stageOffered, Decoder.stateless, hdecode, observeInPlace_of_ok hgroup,
              hstage]
            rw [records_take_cons_ok le_rfl, Nat.sub_self, hobserve]
            rfl
          · simp only [stageOffered, Decoder.stateless, hdecode, observeInPlace_of_ok hgroup,
              hstage]
            rw [ih, attributed_congr hindex]
            -- the other items are counted from this pair on
            have hle := scanned_le_stageAll c (f.attributed (pairs.map decode)) ⟨b, p.scanned + 1⟩
            rw [records_take_cons_ok hle, hobserve]

/-- A pass with such a decoder writes the stream of the items that it makes, and leaves the fold
that has observed their records.  An archive that cannot be scanned makes a single item. -/
theorem transcodeRange_stateless (f : Fold V) (s : Source) (r : KeyRange) (c : Channel σ)
    (decode : Entry → Except Error (V × Entry)) (world : σ) :
    let range := f.transcodeRange s r c (.stateless decode) world ()
    let stream := f.transcode c ((s.items r).map (·.bind decode)) world
    range.1 = stream.1 ∧ range.2.1.batch = stream.2.2.batch ∧ range.2.2.1 = stream.2.1 := by
  cases hscan : s.scan r with
  | error fault =>
      simp only [transcodeRange, Source.visit, Source.items, hscan]
      exact ⟨rfl, rfl, rfl⟩
  | ok pairs =>
      have hitems : (s.items r).map (·.bind decode) = pairs.map decode := by
        rw [Source.items, hscan, List.map_map]
        rfl
      have hvisit := visitAll_stageOffered decode f c pairs ⟨{ world }, 0⟩
      rw [hitems, transcode, Channel.transcode]
      simp only [transcodeRange, Source.visit, hscan, hvisit]
      rcases hstaged : c.stageAll (f.attributed (pairs.map decode)) ⟨{ world }, 0⟩ with
        ⟨fault | ⟨⟩, p⟩
      · exact ⟨rfl, rfl, rfl⟩
      · rcases hflush : c.flush p.batch with ⟨fault | ⟨⟩, b⟩ <;>
          simp only [hflush, Nat.sub_zero, and_self]

lemma observeAll_withStats (f : Fold V) (stats : PassStats) (vs : List V) :
    ({ f with stats } : Fold V).observeAll vs = { f.observeAll vs with stats } := by
  induction vs using List.reverseRecOn with
  | nil => rfl
  | append_singleton vs v ih =>
      rw [observeAll_concat, observeAll_concat, ih]
      rcases hgroup : (f.observeAll vs).groupOf v with fault | ⟨epoch, i⟩
      · have hgroup' : ({ f.observeAll vs with stats } : Fold V).groupOf v = .error fault := hgroup
        rw [observe_of_error hgroup, observe_of_error hgroup']
      · have hgroup' : ({ f.observeAll vs with stats } : Fold V).groupOf v = .ok (epoch, i) :=
          hgroup
        rw [observe_of_ok hgroup, observe_of_ok hgroup']
        exact offer_withStats _ stats epoch i v

/-- What passes through a fold is written like any stream. -/
lemma transcode_eq (f : Fold V) (c : Channel σ) (items : List (Except Error (V × Entry)))
    (world : σ) :
    (f.transcode c items world).1 = (c.transcode (f.attributed items) world).1 ∧
      (f.transcode c items world).2.2 = (c.transcode (f.attributed items) world).2 := by
  rw [transcode]
  rcases c.transcode (f.attributed items) world with ⟨e | stats, p⟩ <;> exact ⟨rfl, rfl⟩

/-- A pass that ends well leaves the fold that has observed all records of the stream. -/
lemma eq_observeAll_of_transcode {f g : Fold V} {c : Channel σ}
    {items : List (Except Error (V × Entry))} {world : σ} {stats : PassStats} {p : Pass σ}
    (h : f.transcode c items world = (.ok stats, g, p)) :
    g = { f.observeAll (records items) with stats := g.stats } := by
  rw [transcode] at h
  rcases hpass : c.transcode (f.attributed items) world with ⟨e | stats', p'⟩
  · rw [hpass] at h
    cases h
  · have hscanned := Channel.scanned_transcode hpass
    rw [attributed, List.length_map] at hscanned
    rw [hpass] at h
    simp only [hscanned, List.take_length] at h
    cases h
    rfl

end Stateless

/-! ### Passes side by side -/

/-- What passes that fold have in common with passes that drop the records. -/
structure FoldsAlongside (f : Fold V) (s : Source) (c : Channel σ) (decode : Decoder V τ)
    (ranges : List KeyRange) (world : σ) (t : τ) : Prop where
  /-- They end the same, one by one, with what they did or with an error. -/
  outcomes : (f.transcodeEach s c decode ranges world t).outcomes =
    (s.transcodeEach c decode.dropping ranges world t).outcomes
  /-- They leave the same world. -/
  worlds : (f.transcodeEach s c decode ranges world t).world =
    (s.transcodeEach c decode.dropping ranges world t).world
  /-- They leave the decoder in the same state. -/
  states : (f.transcodeEach s c decode ranges world t).state.2 =
    (s.transcodeEach c decode.dropping ranges world t).state
  /-- The fold counts what the passes did together. -/
  stats : (f.transcodeEach s c decode ranges world t).state.1.stats =
    f.stats + .sum
      ((s.transcodeEach c decode.dropping ranges world t).outcomes.filterMap Except.toOption)
  /-- The groups are those of observing the decoded records in order, as passes note them that write
  the same. -/
  groups : (f.transcodeEach s c decode ranges world t).state.1.groups =
    (f.observeEach (s.transcodeEach c decode.noting ranges world (t, [])).state.2).groups
  noting : PassesAlike Eq (fun s t => s.1 = t)
    (s.transcodeEach c decode.noting ranges world (t, []))
    (s.transcodeEach c decode.dropping ranges world t)
  /-- If no pass fails, these are the records of all pairs of the ranges, in the order of the
  scans. -/
  complete : (∀ o ∈ (s.transcodeEach c decode.dropping ranges world t).outcomes, o.isOk) →
    (f.transcodeEach s c decode ranges world t).state.1.groups =
      (f.observeEach (decode.readAll (ranges.flatMap s.pairs) t)).groups

/-- What passes that fold have in common with passes that refuse the records that belong to no
group. -/
structure RefusesAlongside (f : Fold V) (s : Source) (c : Channel σ) (decode : Decoder V τ)
    (ranges : List KeyRange) (world : σ) (t : τ) (refusal : V → Error) : Prop where
  /-- They end the same, one by one, where the error of a record that belongs to no group goes with
  the refusal of that record. -/
  outcomes : List.Forall₂ (OutcomeAlike (f.StandsFor refusal))
    (f.transcodeEach s c decode ranges world t).outcomes
    (s.transcodeEach c (decode.refusing f refusal) ranges world t).outcomes
  /-- They leave the same world. -/
  worlds : (f.transcodeEach s c decode ranges world t).world =
    (s.transcodeEach c (decode.refusing f refusal) ranges world t).world
  /-- They leave the decoder in the same state. -/
  states : (f.transcodeEach s c decode ranges world t).state.2 =
    (s.transcodeEach c (decode.refusing f refusal) ranges world t).state

lemma foldsAlongside {f : Fold V} (s : Source) (c : Channel σ) {decode : Decoder V τ}
    (hplaced : ∀ e t v entry, (decode e t).1 = .ok (v, entry) →
      ∃ epoch i, f.index.Places v epoch i)
    (ranges : List KeyRange) (world : σ) (t : τ) :
    f.FoldsAlongside s c decode ranges world t := by
  have hnoted := transcodeEach_alike (fun _ => rfl) (folding_alike hplaced)
    HasObserved.withStats s c ranges world
    (f := f) (t := t) (u := (t, [])) ⟨rfl, rfl⟩
  have hdropped := s.transcodeEach_alike (fun _ => rfl) (noting_alike decode) c ranges world
    (t := (t, [])) (u := t) rfl
  have houtcomes := hnoted.outcomes_eq.trans hdropped.outcomes_eq
  have hgroups := congrArg groups hnoted.state.1
  refine ⟨houtcomes, hnoted.world.trans hdropped.world, hnoted.state.2.trans hdropped.state, ?_,
    hgroups, hdropped, fun hok => ?_⟩
  · rw [stats_transcodeEach, houtcomes]
  · rw [← hdropped.outcomes_eq] at hok
    obtain ⟨made, hmade⟩ := Source.makes_of_transcodeEach hok
    rw [hgroups, readAll_of_makes hmade, List.nil_append]

lemma refusesAlongside (f : Fold V) (s : Source) (c : Channel σ) (decode : Decoder V τ)
    (ranges : List KeyRange) (world : σ) (t : τ) (refusal : V → Error) :
    f.RefusesAlongside s c decode ranges world t refusal := by
  obtain ⟨houtcomes, hworld, hstate⟩ := transcodeEach_alike (fun e => .inl rfl)
    (folding_alike_refusing f decode refusal) (fun hrelated _ => hrelated) s c ranges world
    (f := f) (t := t) ⟨rfl, rfl⟩
  exact ⟨houtcomes, hworld, hstate.2⟩

/-- Passes that fold write what passes write that drop the records, as long as each record belongs
to a group; and whatever the records are, a record that belongs to no group ends a pass as if the
decoder had failed there. -/
theorem transcodeEach_agrees (f : Fold V) (s : Source) (c : Channel σ) (decode : Decoder V τ)
    (ranges : List KeyRange) (world : σ) (t : τ) :
    ((∀ e t v entry, (decode e t).1 = .ok (v, entry) → ∃ epoch i, f.index.Places v epoch i) →
      f.FoldsAlongside s c decode ranges world t) ∧
    ∀ refusal, f.RefusesAlongside s c decode ranges world t refusal :=
  ⟨fun hplaced => foldsAlongside s c hplaced ranges world t,
    f.refusesAlongside s c decode ranges world t⟩

end Fold

/-! ### A fold over sightings -/

/-- That something was seen at a tick of an epoch. -/
structure Sighting where
  epoch : UInt32
  tick : UInt32
deriving DecidableEq

namespace Sighting

instance : Attributed Sighting where
  label := "Sighting"
  attribution s := some (s.epoch, s.tick)

/-- Reads the tick from the value, which is a single byte, and notes the key. -/
def ofPair : Fold.Decoder Sighting (List Bytes) := fun e seen =>
  (match e.2 with
    | [tick] => .ok (⟨5, tick.toUInt32⟩, e)
    | _ => .error (.codec (.invalidKey .tickData 0 "empty")),
    seen ++ [e.1])

/-- A fold over an epoch of two intervals, which hold all ticks between them. -/
def everyTick : Fold Sighting :=
  .fresh ⟨Std.ExtTreeMap.insert ∅ 5 [(⟨0, 10⟩ : TickRange), ⟨11, 4294967295⟩]⟩

lemma exists_places (tick : UInt32) :
    ∃ i, everyTick.index.Places (⟨5, tick⟩ : Sighting) 5 i := by
  by_cases h : tick ≤ 10
  · exact ⟨0, tick, _, ⟨0, 10⟩, rfl, rfl, rfl, by simp [TickRange.contains, h],
      fun j hj => absurd hj (Nat.not_lt_zero j)⟩
  · have hlate : 10 < tick.toNat := by simpa [UInt32.le_iff_toNat_le] using h
    refine ⟨1, tick, _, ⟨11, 4294967295⟩, rfl, rfl, rfl, ?_, ?_⟩
    · simp only [TickRange.contains, UInt32.le_iff_toNat_le, Bool.and_eq_true, decide_eq_true_eq]
      exact ⟨hlate, Nat.le_of_lt_succ tick.toNat_lt⟩
    · rintro j hj earlier hearlier
      obtain rfl := Nat.lt_one_iff.1 hj
      cases hearlier
      simp [TickRange.contains, h]

/-- Every sighting that is read belongs to a group. -/
lemma places_ofPair (e : Entry) (seen : List Bytes) (v : Sighting) (entry : Entry)
    (h : (ofPair e seen).1 = .ok (v, entry)) : ∃ epoch i, everyTick.index.Places v epoch i := by
  simp only [ofPair] at h
  split at h
  · cases h
    exact ⟨5, exists_places _⟩
  · cases h

/-- Five pairs, the fourth of which holds no tick. -/
def fivePairs : Source :=
  .ofContents (.overlay ∅ [([1], [7]), ([2], [30]), ([3], [9]), ([4], []), ([5], [40])])

/-- Ranges of which the second holds the pair without a tick. -/
def threeRanges : List KeyRange := [⟨[1], [3]⟩, ⟨[3], [6]⟩, ⟨[5], [6]⟩]

/-- The second of three passes ends at the fourth pair; the other two are counted, the three
records that they committed are in the store, and the fold knows the record that was not committed
as well. -/
theorem transcodeEach_agrees_sightings :
    let passes := everyTick.transcodeEach fivePairs MemoryStore.undisturbed ofPair threeRanges {} []
    passes.outcomes.map Except.toOption = [some ⟨2, 2, 1⟩, none, some ⟨1, 1, 1⟩] ∧
      passes.world.contents = .overlay ∅ [([1], [7]), ([2], [30]), ([5], [40])] ∧
      passes.state.1.stats = ⟨3, 3, 2⟩ ∧
      passes.state.1.groups =
        (everyTick.observeEach [⟨5, 7⟩, ⟨5, 30⟩, ⟨5, 9⟩, ⟨5, 40⟩]).groups := by
  have h := (Fold.transcodeEach_agrees everyTick fivePairs MemoryStore.undisturbed ofPair
    threeRanges {} []).1 places_ofPair
  intro passes
  refine ⟨?_, ?_, ?_, ?_⟩
  · rw [h.outcomes]
    decide
  · rw [h.worlds]
    decide
  · rw [h.stats]
    decide
  · rw [h.groups]
    decide

end Sighting

end EpochSplit
