import EpochSplit.Proofs.Migrator.Alike
/-!
# Films

A film keeps the world as it is after each commit that is accepted.  Filming changes nothing about a
move (`migrateEpoch_filmed`), and what is seen in a frame is what some first steps of the plan made
of the world in which the store was opened (`frames_migrateEpoch`).
-/

namespace EpochSplit

variable {σ : Type}

/-- A world, and the worlds after the commits that were accepted so far. -/
structure Film (σ : Type) where
  world : σ
  frames : List σ := []

namespace Film

/-- The film goes on in a world without a new frame. -/
def cut {ρ : Type} (f : Film σ) (answer : ρ × σ) : ρ × Film σ :=
  (answer.1, { f with world := answer.2 })

/-- The film goes on in a world, which is kept if the answer is a success. -/
def shoot (f : Film σ) (answer : Except StoreFault Unit × σ) : Except StoreFault Unit × Film σ :=
  match answer with
  | (.ok (), world) => (.ok (), ⟨world, f.frames ++ [world]⟩)
  | (.error fault, world) => (.error fault, { f with world })

lemma shoot_eq (f : Film σ) (answer : Except StoreFault Unit × σ) :
    (f.shoot answer).1 = answer.1 ∧ (f.shoot answer).2.world = answer.2 := by
  rcases answer with ⟨_ | _, world⟩ <;> exact ⟨rfl, rfl⟩

end Film

/-- The store, filming the commits. -/
def Target.filmed (t : Target σ) : Target (Film σ) where
  commit durable batch f := f.shoot (t.commit durable batch f.world)
  compact f := f.cut (t.compact f.world)
  close f := f.cut (t.close f.world)

/-- The site, filming the commits to the stores of epochs. -/
def Site.filmed (site : Site σ) : Site (Film σ) where
  source f := site.source f.world
  openEpoch epoch f := ((site.openEpoch epoch f.world).1.map Target.filmed,
    { f with world := (site.openEpoch epoch f.world).2 })
  cancelled f := site.cancelled f.world
  now f := site.now f.world

/-! ### A film changes nothing -/

section Erasure

variable {site : Site σ} {epoch : UInt32}

lemma openEpoch_filmed_ok {f : Film σ} {target : Target σ} {world : σ}
    (h : site.openEpoch epoch f.world = (.ok target, world)) :
    site.filmed.openEpoch epoch f = (.ok target.filmed, { f with world }) := by
  simp only [Site.filmed, h]
  rfl

lemma openEpoch_filmed_error {f : Film σ} {fault : StoreFault} {world : σ}
    (h : site.openEpoch epoch f.world = (.error fault, world)) :
    site.filmed.openEpoch epoch f = (.error fault, { f with world }) := by
  simp only [Site.filmed, h]
  rfl

lemma matches_filmed (site : Site σ) (epoch : UInt32) :
    site.filmed.Matches epoch (·.world = ·) (fun target' target => target' = target.filmed)
      site where
  source := by
    rintro f _ rfl
    rfl
  cancelled := by
    rintro f _ rfl
    rfl
  now := by
    rintro f _ rfl
    rfl
  openEpoch := by
    rintro f _ rfl
    rcases hopen : site.openEpoch epoch f.world with ⟨fault | target, world⟩
    · exact .inl ⟨fault, _, world, openEpoch_filmed_error hopen, rfl, rfl⟩
    · exact .inr ⟨target.filmed, target, _, world, openEpoch_filmed_ok hopen, rfl, rfl, rfl⟩
  compact := by
    rintro _ target f _ rfl rfl
    exact ⟨rfl, rfl⟩
  close := by
    rintro _ target f _ rfl rfl
    exact ⟨rfl, rfl⟩

/-- A move that is filmed goes as it goes without. -/
theorem Migrator.migrateEpoch_filmed (m : Migrator) (site : Site σ) (epoch : UInt32)
    (f : Film σ) :
    ((m.migrateEpoch site.filmed epoch f).1, (m.migrateEpoch site.filmed epoch f).2.1,
        (m.migrateEpoch site.filmed epoch f).2.2.world) = m.migrateEpoch site epoch f.world := by
  refine migrateEpoch_erased (matches_filmed site epoch) ?_ m f
  rintro _ target rfl durable batch f
  obtain ⟨hout, hworld⟩ := f.shoot_eq (target.commit durable batch f.world)
  exact ⟨hout, hworld⟩

end Erasure

/-! ### What a film shows -/

section Frames

variable {m : Migrator} {site : Site σ} {epoch : UInt32} {target : Target σ} {frame : σ}

/-- A step that succeeds adds the world that it leads to, or nothing.  A step that fails adds
nothing. -/
lemma takeStep_filmed {s : Step} {f f' : Film σ} {r : Except Error Unit}
    (h : (m.channel site.filmed target.filmed "").takeStep s f = (r, f')) :
    (m.channel site target "").takeStep s f.world = (r, f'.world) ∧
      (f'.frames = f.frames ∨ r = .ok () ∧ f'.frames = f.frames ++ [f'.world]) := by
  cases s with
  | commit doing batch =>
      rcases hc : target.commit true batch f.world with ⟨fault | ⟨⟩, world⟩
      · simp only [Channel.takeStep, Migrator.channel, Target.filmed, Film.shoot, hc] at h ⊢
        cases h
        exact ⟨rfl, .inl rfl⟩
      · simp only [Channel.takeStep, Migrator.channel, Target.filmed, Film.shoot, hc] at h ⊢
        cases h
        exact ⟨rfl, .inr ⟨rfl, rfl⟩⟩
  | pause doing written =>
      cases hx : site.cancelled f.world with
      | true =>
          have hx' : site.filmed.cancelled f = true := hx
          simp only [Channel.takeStep, Migrator.channel, hx, hx', if_true] at h ⊢
          cases h
          exact ⟨rfl, .inl rfl⟩
      | false =>
          have hx' : site.filmed.cancelled f = false := hx
          simp only [Channel.takeStep, Migrator.channel, hx, hx', Bool.false_eq_true,
            if_false] at h ⊢
          cases h
          exact ⟨rfl, .inl rfl⟩
  | stop e =>
      cases h
      exact ⟨rfl, .inl rfl⟩

/-- What is seen in a frame is a world that some first steps lead to. -/
lemma frames_perform {steps : List Step} {f f' : Film σ} {r : Except Error Unit}
    (h : (m.channel site.filmed target.filmed "").perform steps f = (r, f'))
    (hframe : frame ∈ f'.frames) :
    frame ∈ f.frames ∨ ∃ done, done <+: steps ∧
      (m.channel site target "").perform done f.world = (.ok (), frame) := by
  induction steps generalizing f with
  | nil =>
      cases h
      exact .inl hframe
  | cons s steps ih =>
      rcases hs : (m.channel site.filmed target.filmed "").takeStep s f with ⟨e | ⟨⟩, f₁⟩
      · rw [Channel.perform_cons_error hs] at h
        cases h
        obtain ⟨-, hsame | ⟨hok, -⟩⟩ := takeStep_filmed hs
        · exact .inl (hsame ▸ hframe)
        · cases hok
      · rw [Channel.perform_cons_ok hs] at h
        obtain ⟨hstep, hframes⟩ := takeStep_filmed hs
        obtain hearlier | ⟨done, hdone, hperform⟩ := ih h
        · obtain hsame | ⟨-, hnew⟩ := hframes
          · exact .inl (hsame ▸ hearlier)
          · rw [hnew, List.mem_append, List.mem_singleton] at hearlier
            obtain hold | rfl := hearlier
            · exact .inl hold
            · refine .inr ⟨[s], List.prefix_append [s] steps, ?_⟩
              rw [Channel.perform_cons_ok hstep, Channel.perform_nil]
        · refine .inr ⟨s :: done, (List.prefix_cons_inj s).2 hdone, ?_⟩
          rw [Channel.perform_cons_ok hstep, hperform]

/-- What is seen in a frame of a move is a world that some first steps of the plan of the epoch lead
to. -/
theorem Migrator.frames_migrateEpoch {world : σ}
    (hframe : frame ∈ (m.migrateEpoch site.filmed epoch { world }).2.2.frames) :
    ∃ metadata target opened done, m.metadata.get? epoch = some metadata ∧
      site.openEpoch epoch world = (.ok target, opened) ∧
      done <+: m.epochSteps (site.source opened) metadata ∧
      (m.channel site target "").perform done opened = (.ok (), frame) := by
  have hcourse := m.migrateEpoch_course site.filmed epoch { world }
  generalize (m.migrateEpoch site.filmed epoch { world }).1.isOk = succeeded at hcourse
  generalize (m.migrateEpoch site.filmed epoch { world }).2.2 = f' at hcourse hframe
  cases hcourse with
  | idle => cases hframe
  | unopened opening =>
      rcases hopen : site.openEpoch epoch world with ⟨fault | target, opened⟩
      · rw [openEpoch_filmed_error hopen] at opening
        cases opening
        cases hframe
      · rw [openEpoch_filmed_ok hopen] at opening
        cases opening
  | @moved metadata target' opened' written reached outcome _ known opening writing complete
      settling =>
      rcases hopen : site.openEpoch epoch world with ⟨fault | target, opened⟩
      · rw [openEpoch_filmed_error hopen] at opening
        cases opening
      · rw [openEpoch_filmed_ok hopen] at opening
        cases opening
        have hwritten : frame ∈ written.frames := by
          obtain rfl | rfl := settling <;> exact hframe
        obtain hnone | ⟨done, hdone, hperform⟩ := frames_perform writing hwritten
        · cases hnone
        · exact ⟨metadata, target, opened, done, known, rfl, hdone, hperform⟩

end Frames

end EpochSplit
