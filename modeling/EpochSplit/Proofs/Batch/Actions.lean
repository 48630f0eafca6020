import EpochSplit.Epoch.Job
import EpochSplit.Proofs.Fold.Passes
/-!
# Actions as lists of steps

What an action does to a world is told by a list: the steps that it takes, or, while a batch is
being filled, the items that it stages (`Action.Follows`).  The list does not depend on the world,
so it can be put together from the lists of the parts of an action: one after the other for actions
in sequence, and turn by turn for loops.  Filling batches with some items is, for the world, to take
the steps of their schedule, and what is counted on the way is the number of the items
(`follows_write`).
-/

namespace EpochSplit

/-! ### Lists of things to do -/

/-- Doing what is on a list, one thing after the other, up to the first that fails. -/
structure InOrder {ι σ : Type} (perform : List ι → σ → Except Error Unit × σ) : Prop where
  nil : ∀ world, perform [] world = (.ok (), world)
  append_ok : ∀ {first more world world'}, perform first world = (.ok (), world') →
    perform (first ++ more) world = perform more world'
  append_error : ∀ {first more world world' e}, perform first world = (.error e, world') →
    perform (first ++ more) world = (.error e, world')

namespace Channel

variable {σ : Type}

lemma inOrder_perform (c : Channel σ) : InOrder c.perform where
  nil _ := rfl
  append_ok h := by rw [perform_append, h]
  append_error h := by rw [perform_append, h]

/-- Stages items one after the other, whatever number of them was looked at before. -/
def stageEach (c : Channel σ) (items : List (Except Error Entry)) (b : Batch σ) :
    Except Error Unit × Batch σ :=
  ((c.stageAll items ⟨b, 0⟩).1, (c.stageAll items ⟨b, 0⟩).2.batch)

lemma stageEach_eq (c : Channel σ) (items : List (Except Error Entry)) (b : Batch σ) (n : Nat) :
    c.stageEach items b = ((c.stageAll items ⟨b, n⟩).1, (c.stageAll items ⟨b, n⟩).2.batch) := by
  suffices h : ∀ k, (c.stageAll items ⟨b, k⟩).1 = (c.stageAll items ⟨b, n⟩).1 ∧
      (c.stageAll items ⟨b, k⟩).2.batch = (c.stageAll items ⟨b, n⟩).2.batch by
    exact Prod.ext (h 0).1 (h 0).2
  intro k
  induction items generalizing b k n with
  | nil => exact ⟨rfl, rfl⟩
  | cons item items ih =>
      cases item with
      | error e => exact ⟨rfl, rfl⟩
      | ok entry =>
          simp only [stageAll]
          rcases c.stage entry b with ⟨e | ⟨⟩, b'⟩
          · exact ⟨rfl, rfl⟩
          · exact ih b' (n + 1) (k + 1)

lemma stageEach_cons_ok {c : Channel σ} {entry : Entry} {items : List (Except Error Entry)}
    {b b' : Batch σ} (h : c.stage entry b = (.ok (), b')) :
    c.stageEach (.ok entry :: items) b = c.stageEach items b' := by
  -- the items after the first are counted from one on
  rw [stageEach_eq c items b' 1, stageEach]
  simp only [stageAll, h]

lemma stageEach_cons_error {c : Channel σ} {entry : Entry} {items : List (Except Error Entry)}
    {b b' : Batch σ} {e : Error} (h : c.stage entry b = (.error e, b')) :
    c.stageEach (.ok entry :: items) b = (.error e, b') := by
  simp only [stageEach, stageAll, h]

lemma inOrder_stageEach (c : Channel σ) : InOrder c.stageEach where
  nil _ := rfl
  append_ok {first more b b'} h := by
    induction first generalizing b with
    | nil =>
        cases h
        rfl
    | cons item first ih =>
        cases item with
        | error e => cases h
        | ok entry =>
            rcases hstage : c.stage entry b with ⟨e | ⟨⟩, b₁⟩
            · rw [stageEach_cons_error hstage] at h
              cases h
            · rw [stageEach_cons_ok hstage] at h
              rw [List.cons_append, stageEach_cons_ok hstage, ih h]
  append_error {first more b b' e} h := by
    induction first generalizing b with
    | nil => cases h
    | cons item first ih =>
        cases item with
        | error fault => exact h
        | ok entry =>
            rcases hstage : c.stage entry b with ⟨fault | ⟨⟩, b₁⟩
            · rw [stageEach_cons_error hstage] at h
              rw [List.cons_append, stageEach_cons_error hstage, h]
            · rw [stageEach_cons_ok hstage] at h
              rw [List.cons_append, stageEach_cons_ok hstage, ih h]

end Channel

/-! ### Actions that follow a list -/

namespace Action

variable {σ ι α β γ : Type} {perform : List ι → σ → Except Error Unit × σ}

lemma bind_of_ok {act : Action σ α} {next : α → Action σ β} {world world' : σ} {a : α}
    (h : act world = (.ok a, world')) : (act >>= next) world = next a world' := by
  simp only [bind, ExceptT.bind, ExceptT.mk, StateT.bind, h]
  rfl

lemma bind_of_error {act : Action σ α} {next : α → Action σ β} {world world' : σ} {e : Error}
    (h : act world = (.error e, world')) : (act >>= next) world = (.error e, world') := by
  simp only [bind, ExceptT.bind, ExceptT.mk, StateT.bind, h]
  rfl

/-- In every world the action goes like doing what is on the list, and what it gives in the end has
some property. -/
structure Follows (act : Action σ α) (perform : List ι → σ → Except Error Unit × σ) (list : List ι)
    (post : α → Prop) : Prop where
  goes : ∀ world, perform list world = ((act world).1.map fun _ => (), (act world).2)
  gives : ∀ {world a world'}, act world = (.ok a, world') → post a

namespace Follows

variable {act : Action σ α} {next : α → Action σ β} {list more : List ι} {post : α → Prop}
  {post' : β → Prop}

lemma mono {weaker : α → Prop} (h : act.Follows perform list post)
    (himp : ∀ a, post a → weaker a) : act.Follows perform list weaker where
  goes := h.goes
  gives hact := himp _ (h.gives hact)

lemma pure (hp : InOrder perform) {a : α} (ha : post a) :
    (Pure.pure a : Action σ α).Follows perform [] post where
  goes world := hp.nil world
  gives hact := by
    cases hact
    exact ha

/-- Actions in sequence follow their lists one after the other. -/
theorem bind (hp : InOrder perform) (h : act.Follows perform list post)
    (hnext : ∀ a, post a → (next a).Follows perform more post') :
    (act >>= next).Follows perform (list ++ more) post' where
  goes world := by
    have hgoes := h.goes world
    rcases hact : act world with ⟨e | a, world'⟩
    · rw [hact] at hgoes
      rw [bind_of_error hact, hp.append_error hgoes]
      rfl
    · rw [hact] at hgoes
      rw [bind_of_ok hact, hp.append_ok hgoes, (hnext a (h.gives hact)).goes]
  gives {world b world'} hb := by
    rcases hact : act world with ⟨e | a, world₁⟩
    · rw [bind_of_error hact] at hb
      cases hb
    · rw [bind_of_ok hact] at hb
      exact (hnext a (h.gives hact)).gives hb

lemma bind_cons {x : ι} (hp : InOrder perform) (h : act.Follows perform [x] post)
    (hnext : ∀ a, post a → (next a).Follows perform more post') :
    (act >>= next).Follows perform (x :: more) post' :=
  h.bind hp hnext

/-- What is computed from the outcome of an action adds nothing to the list. -/
lemma map (hp : InOrder perform) {f : α → β} (h : act.Follows perform list post)
    (himp : ∀ a, post a → post' (f a)) :
    (act >>= fun a => Pure.pure (f a)).Follows perform list post' := by
  rw [← List.append_nil list]
  exact h.bind hp fun a ha => pure hp (himp a ha)

lemma foldlM_after (hp : InOrder perform) {body : β → γ → Action σ β} {turn : γ → List ι}
    {inv : List γ → β → Prop}
    (hbody : ∀ {done x b}, inv done b → (body b x).Follows perform (turn x) (inv (done ++ [x])))
    (xs : List γ) {done : List γ} {b : β} (hb : inv done b) :
    (xs.foldlM body b).Follows perform (xs.flatMap turn) (inv (done ++ xs)) := by
  induction xs generalizing done b with
  | nil =>
      rw [List.append_nil]
      exact pure hp hb
  | cons x xs ih =>
      rw [List.foldlM_cons, List.flatMap_cons]
      refine (hbody hb).bind hp fun b' hb' => ?_
      rw [List.append_cons]
      exact ih hb'

/-- A loop follows the lists of its turns.  The invariant is about the elements that had their
turn. -/
theorem foldlM (hp : InOrder perform) {body : β → γ → Action σ β} {turn : γ → List ι}
    (inv : List γ → β → Prop)
    (hbody : ∀ {done x b}, inv done b → (body b x).Follows perform (turn x) (inv (done ++ [x])))
    (xs : List γ) {b : β} (hb : inv [] b) :
    (xs.foldlM body b).Follows perform (xs.flatMap turn) (inv xs) :=
  foldlM_after hp hbody xs hb

/-- An action about which more is said takes steps about which more is said. -/
theorem within {c : Channel σ} {steps : List Step} (h : act.Follows c.perform steps post)
    (doing : String) :
    (act.within doing).Follows c.perform (steps.map (.within doing)) post where
  goes world := by
    rw [Channel.perform_within, h.goes, Action.within]
    rcases act world with ⟨e | a, world'⟩ <;> rfl
  gives {world a world'} hact := by
    rcases hrun : act world with ⟨e | a', world₁⟩
    · rw [Action.within, hrun] at hact
      cases hact
    · rw [Action.within, hrun] at hact
      cases hact
      exact h.gives hrun

/-- A loop that keeps nothing in mind. -/
lemma forM (hp : InOrder perform) {body : γ → Action σ PUnit} {turn : γ → List ι}
    (hbody : ∀ x, (body x).Follows perform (turn x) fun _ => True) (xs : List γ) :
    (xs.forM body).Follows perform (xs.flatMap turn) fun _ => True := by
  induction xs with
  | nil => exact pure hp trivial
  | cons x xs ih =>
      rw [List.flatMap_cons]
      exact (hbody x).bind hp fun _ _ => ih

end Follows

end Action

/-! ### Filling batches -/

namespace Channel

variable {σ α β : Type} {c : Channel σ}

lemma follows_stage (c : Channel σ) (entry : Entry) :
    Action.Follows (c.stage entry : Action (Batch σ) Unit) c.stageEach [.ok entry]
      fun _ => True where
  goes b := by
    rcases hstage : c.stage entry b with ⟨e | ⟨⟩, b'⟩
    · exact stageEach_cons_error hstage
    · exact stageEach_cons_ok hstage
  gives _ := trivial

/-- A record that is missing ends the filling of a batch. -/
lemma follows_missing (c : Channel σ) (next : α → Action (Batch σ) β) (e : Error)
    (post : β → Prop) :
    Action.Follows ((liftM (Except.error e) : Action (Batch σ) α) >>= next) c.stageEach
      [.error e] post where
  goes _ := rfl
  gives h := by cases h

lemma follows_stageFound (c : Channel σ) (found : Except Error Entry) :
    (c.stageFound found).Follows c.stageEach [found] fun _ => True := by
  cases found with
  | error e => exact c.follows_missing _ e _
  | ok entry => exact c.follows_stage entry

/-- What fills a batch with some items leaves the batch that staging the items leaves. -/
lemma stageAll_of_follows {fill : Action (Batch σ) α} {items : List (Except Error Entry)}
    {post : α → Prop} (h : fill.Follows c.stageEach items post) (world : σ) :
    ∃ scanned, c.stageAll items ⟨{ world }, 0⟩ =
      ((fill { world }).1.map fun _ => (), ⟨(fill { world }).2, scanned⟩) := by
  have hgoes := h.goes { world }
  rcases hstaged : c.stageAll items ⟨{ world }, 0⟩ with ⟨r, ⟨b, scanned⟩⟩
  rw [stageEach, hstaged] at hgoes
  obtain ⟨hr, hb⟩ := Prod.mk.inj hgoes
  exact ⟨scanned, by rw [← hr, ← hb]⟩

/-- What fills batches with some items takes the steps of their schedule, and says how many they
are. -/
theorem follows_write {fill : Action (Batch σ) α} {items : List (Except Error Entry)}
    {post : α → Prop} (h : fill.Follows c.stageEach items post) :
    (c.write fill).Follows c.perform (schedule c.limit c.label [] [] 0 items)
      fun r => post r.1 ∧ r.2.written = items.length where
  goes world := by
    obtain ⟨scanned, hstaged⟩ := stageAll_of_follows h world
    rw [← transcode_eq_perform_nil, transcode_eq_finish, finish, hstaged, write]
    rcases fill { world } with ⟨e | a, b⟩
    · rfl
    · rcases hflush : c.flush b with ⟨e | ⟨⟩, b'⟩ <;> simp only [Except.map, hflush]
  gives {world r world'} hwrite := by
    obtain ⟨scanned, hstaged⟩ := stageAll_of_follows h world
    rw [write] at hwrite
    rcases hfill : fill { world } with ⟨e | a, b⟩
    · rw [hfill] at hwrite
      cases hwrite
    · rcases hflush : c.flush b with ⟨e | ⟨⟩, b'⟩
      · simp only [hfill, hflush] at hwrite
        cases hwrite
      · simp only [hfill, hflush] at hwrite
        cases hwrite
        refine ⟨h.gives hfill, ?_⟩
        -- the stream is counted by the same batch
        have hpass : c.transcode items world =
            (.ok (Pass.stats ⟨b', scanned⟩), ⟨b', scanned⟩) := by
          simp only [transcode, hstaged, hfill, Except.map, hflush]
        have hcount := written_transcode hpass
        exact hcount

/-- A pass that goes like the writing of a stream, and commits as much of it, takes the steps of its
schedule and counts its items. -/
theorem follows_ofPass {τ : Type} {pass : σ → Except Error PassStats × Pass σ × τ}
    {items : List (Except Error Entry)} {post : PassStats × τ → Prop}
    (hpass : ∀ world,
      (pass world).1.map PassStats.written = (c.transcode items world).1.map PassStats.written ∧
        (pass world).2.1.batch = (c.transcode items world).2.batch)
    (hpost : ∀ {world stats p t}, pass world = (.ok stats, p, t) → post (stats, t)) :
    (Action.ofPass pass).Follows c.perform (schedule c.limit c.label [] [] 0 items)
      fun r => r.1.written = items.length ∧ post r where
  goes world := by
    obtain ⟨hr, hb⟩ := hpass world
    rw [← transcode_eq_perform_nil, ← hb, Action.ofPass]
    rcases hrun : pass world with ⟨e | stats, p, t⟩
    -- the pass and the stream fail together, with one error
    · rcases htranscode : c.transcode items world with ⟨e' | stats', p'⟩
      · rw [hrun, htranscode] at hr
        cases hr
        rfl
      · rw [hrun, htranscode] at hr
        cases hr
    · rcases htranscode : c.transcode items world with ⟨e' | stats', p'⟩
      · rw [hrun, htranscode] at hr
        cases hr
      · rfl
  gives {world r world'} hact := by
    obtain ⟨hr, -⟩ := hpass world
    rcases hrun : pass world with ⟨e | stats, p, t⟩
    · rw [Action.ofPass, hrun] at hact
      cases hact
    · rw [Action.ofPass, hrun] at hact
      cases hact
      rw [hrun] at hr
      rcases htranscode : c.transcode items world with ⟨e | stats', p'⟩
      · rw [htranscode] at hr
        cases hr
      · rw [htranscode] at hr
        have hwritten : stats.written = stats'.written := Except.ok.inj hr
        exact ⟨hwritten.trans (written_transcode htranscode), hpost hrun⟩

end Channel

/-! ### Passes over an archive -/

section Passes

variable {σ τ V : Type}

/-- A pass whose transform keeps notes, which make no difference to the records, takes the steps of
the stream of these records and counts them.  What it has noted in the end comes from all pairs of
the range. -/
theorem Source.follows_transcode {f : Transform τ} {g : Entry → Except Error Entry}
    (hfg : f.Alike Eq (fun _ _ => True) (.stateless g)) (s : Source) (r : KeyRange)
    (c : Channel σ) (t : τ) :
    (Action.ofPass fun world => s.transcode r c f world t).Follows c.perform
      (schedule c.limit c.label [] [] 0 (s.transformed r g))
      fun x => x.1.written = (s.transformed r g).length ∧
        s.items r = (s.pairs r).map .ok ∧ ∃ made, f.Makes (s.pairs r) t made x.2 := by
  refine Channel.follows_ofPass (fun world => ?_) fun {world stats p t'} hrun => ?_
  -- for the world the notes make no difference, and without them the pass is a stream
  · obtain ⟨houtcome, hpass, -⟩ :=
      s.transcode_alike (fun _ => rfl) hfg r c world (t := t) (u := ()) trivial
    obtain ⟨hr, hbatch⟩ := s.transcode_stateless r c g world
    exact ⟨congrArg _ (houtcome.eq_of_eq.trans hr), (congrArg Pass.batch hpass).trans hbatch⟩
  · have hok : (s.transcode r c f world t).1.isOk := by
      rw [hrun]
      rfl
    have hmakes := makes_of_transcode hok
    rw [hrun] at hmakes
    exact ⟨items_of_transcode hok, hmakes⟩

/-- A pass that folds takes the steps of the stream that is folded, and counts its items both in
what it gives and in the fold, which has observed all of their records. -/
theorem Fold.follows_transcodeRange [Attributed V] (f : Fold V) (s : Source) (r : KeyRange)
    (c : Channel σ) (decode : Entry → Except Error (V × Entry))
    (items : List (Except Error (V × Entry))) (hitems : items = (s.items r).map (·.bind decode)) :
    (Action.ofPass fun world => f.transcodeRange s r c (.stateless decode) world ()).Follows
      c.perform (schedule c.limit c.label [] [] 0 (f.attributed items))
      fun x => x.1.written = (f.attributed items).length ∧
        x.2.1 = { f.observeAll (records items) with stats := x.2.1.stats } ∧
        x.2.1.stats = f.stats + x.1 := by
  subst hitems
  have hstream := f.transcodeRange_stateless s r c decode
  refine Channel.follows_ofPass (fun world => ?_) fun {world stats p t} hrun => ?_
  · obtain ⟨hr, hbatch, -⟩ := hstream world
    obtain ⟨hr', hp⟩ := f.transcode_eq c ((s.items r).map (·.bind decode)) world
    exact ⟨congrArg _ (hr.trans hr'), hbatch.trans (congrArg Pass.batch hp)⟩
  · obtain ⟨hr, -, hfold⟩ := hstream world
    have hstats := f.stats_transcodeRange s r c (.stateless decode) world ()
    rw [hrun] at hr hfold hstats
    have hobserved := eq_observeAll_of_transcode (Prod.ext hr.symm rfl)
    rw [← hfold] at hobserved
    exact ⟨hobserved, hstats.trans (PassStats.add_sum_singleton _ _)⟩

/-- What a fold writes in the end takes the steps of a stream of its own and counts its items. -/
theorem Fold.follows_persist (f : Fold V) (c : Channel σ)
    (encode : UInt32 → Std.ExtTreeMap Nat V → Except CodecFault Entry) :
    (Action.ofPass fun world =>
        ((f.persist c encode world).1, (f.persist c encode world).2, ())).Follows c.perform
      (schedule c.limit c.label [] [] 0 (f.kept encode))
      fun x => x.1.written = (f.kept encode).length := by
  have hfollows : (Action.ofPass fun world =>
        ((f.persist c encode world).1, (f.persist c encode world).2, ())).Follows c.perform
      (schedule c.limit c.label [] [] 0 (f.kept encode))
      fun x => x.1.written = (f.kept encode).length ∧ True := by
    refine Channel.follows_ofPass (fun world => ?_) fun _ => trivial
    rw [persist]
    rcases c.transcode (f.kept encode) world with ⟨e | stats, p⟩ <;> exact ⟨rfl, rfl⟩
  exact hfollows.mono fun x hx => hx.1

end Passes

end EpochSplit
