import EpochSplit.Transcode
import Mathlib.Tactic.Common
/-!
# Writing as a list of steps

What is asked of the world while a stream is written does not depend on the answers, except that
the first failure ends the writing.  So the stream and the size of the batches alone determine a
list of steps: batches to commit, places at which the run may be cancelled, and an error at the end
where the stream holds one.  This file says what taking such steps one after the other does to the
world; what holds after a run follows from what holds after a step.
-/

namespace EpochSplit

/-- A step of writing a stream. -/
inductive Step where
  /-- A batch is committed. -/
  | commit (doing : List String) (batch : List Entry)
  /-- A cancellation is noticed here, after `written` records of the stream were committed. -/
  | pause (doing : List String) (written : Nat)
  /-- The stream is at fault. -/
  | stop (e : Error)

namespace Step

/-- The pairs that a step writes. -/
def entries : Step → List Entry
  | commit _ batch => batch
  | _ => []

/-- The fault of the stream that a step reports. -/
def fault? : Step → Option Error
  | stop e => some e
  | _ => none

/-- A step about which more is said of what is being done. -/
def within (doing : String) : Step → Step
  | commit inner batch => commit (doing :: inner) batch
  | pause inner written => pause (doing :: inner) written
  | stop e => stop (.context doing e)

end Step

namespace Channel

variable {σ : Type}

/-! ### Taking steps -/

/-- Takes a step. -/
def takeStep (c : Channel σ) : Step → σ → Except Error Unit × σ
  | .commit doing batch, world =>
      match c.target.commit c.durable batch world with
      | (.ok (), world) => (.ok (), world)
      | (.error fault, world) => (.error (.within doing (.store fault)), world)
  | .pause doing written, world =>
      if c.cancelled world then (.error (.within doing (.run (.cancelled written))), world)
      else (.ok (), world)
  | .stop e, world => (.error e, world)

/-- Takes steps one after the other, up to the first that fails. -/
def perform (c : Channel σ) : List Step → σ → Except Error Unit × σ
  | [], world => (.ok (), world)
  | s :: steps, world =>
      match c.takeStep s world with
      | (.ok (), world) => c.perform steps world
      | failed => failed

@[simp] lemma perform_nil (c : Channel σ) (world : σ) : c.perform [] world = (.ok (), world) := rfl

lemma perform_cons_ok {c : Channel σ} {s : Step} {steps : List Step} {world world' : σ}
    (h : c.takeStep s world = (.ok (), world')) :
    c.perform (s :: steps) world = c.perform steps world' := by
  simp only [perform, h]

lemma perform_cons_error {c : Channel σ} {s : Step} {steps : List Step} {world world' : σ}
    {e : Error} (h : c.takeStep s world = (.error e, world')) :
    c.perform (s :: steps) world = (.error e, world') := by
  simp only [perform, h]

lemma perform_append (c : Channel σ) (steps more : List Step) (world : σ) :
    c.perform (steps ++ more) world =
      match c.perform steps world with
      | (.ok (), world) => c.perform more world
      | failed => failed := by
  induction steps generalizing world with
  | nil => rfl
  | cons s steps ih =>
      rcases h : c.takeStep s world with ⟨_ | ⟨⟩, world'⟩
      · rw [List.cons_append, perform_cons_error h, perform_cons_error h]
      · rw [List.cons_append, perform_cons_ok h, perform_cons_ok h, ih]

lemma takeStep_within (c : Channel σ) (doing : String) (s : Step) (world : σ) :
    c.takeStep (s.within doing) world =
      (Error.inContext doing (c.takeStep s world).1, (c.takeStep s world).2) := by
  cases s with
  | commit inner batch =>
      simp only [Step.within, takeStep]
      rcases c.target.commit c.durable batch world with ⟨fault | ⟨⟩, world'⟩ <;> rfl
  | pause inner written =>
      simp only [Step.within, takeStep]
      split <;> rfl
  | stop e => rfl

/-- What is said of steps is said of the failure of any of them. -/
lemma perform_within (c : Channel σ) (doing : String) (steps : List Step) (world : σ) :
    c.perform (steps.map (.within doing)) world =
      (Error.inContext doing (c.perform steps world).1, (c.perform steps world).2) := by
  induction steps generalizing world with
  | nil => rfl
  | cons s steps ih =>
      have hstep := c.takeStep_within doing s world
      rw [List.map_cons]
      rcases hs : c.takeStep s world with ⟨e | ⟨⟩, world'⟩
      · rw [hs] at hstep
        rw [perform_cons_error hstep, perform_cons_error hs]
        rfl
      · rw [hs] at hstep
        rw [perform_cons_ok hstep, perform_cons_ok hs, ih]

/-- Steps do not depend on what a stream is called. -/
lemma perform_label (c : Channel σ) (label : String) (steps : List Step) (world : σ) :
    { c with label }.perform steps world = c.perform steps world := by
  induction steps generalizing world with
  | nil => rfl
  | cons s steps ih =>
      have hs : { c with label }.takeStep s world = c.takeStep s world := by cases s <;> rfl
      simp only [perform, hs, ih]

/-- Steps that all succeed report no fault of the stream. -/
lemma fault?_of_perform_ok {c : Channel σ} {steps : List Step} {world world' : σ}
    (h : c.perform steps world = (.ok (), world')) : steps.findSome? Step.fault? = none := by
  induction steps generalizing world with
  | nil => rfl
  | cons s steps ih =>
      rcases hs : c.takeStep s world with ⟨_ | ⟨⟩, world₁⟩
      · rw [perform_cons_error hs] at h
        cases h
      · rw [perform_cons_ok hs] at h
        cases s with
        | stop e => cases hs
        | commit | pause => exact ih h

/-- A run that fails takes some of its steps with success and fails at the next one. -/
theorem perform_eq_error {c : Channel σ} {steps : List Step} {world world' : σ} {e : Error}
    (h : c.perform steps world = (.error e, world')) :
    ∃ done s rest reached, steps = done ++ s :: rest ∧
      c.perform done world = (.ok (), reached) ∧ c.takeStep s reached = (.error e, world') := by
  induction steps generalizing world with
  | nil => cases h
  | cons s steps ih =>
      rcases hs : c.takeStep s world with ⟨_ | ⟨⟩, world₁⟩
      · rw [perform_cons_error hs] at h
        cases h
        exact ⟨[], s, steps, world, rfl, rfl, hs⟩
      · rw [perform_cons_ok hs] at h
        obtain ⟨done, t, rest, reached, rfl, hdone, ht⟩ := ih h
        exact ⟨s :: done, t, rest, reached, rfl, by rw [perform_cons_ok hs, hdone], ht⟩

/-- What commits keep, steps keep. -/
lemma keeps_perform {c : Channel σ} {p : σ → Prop}
    (hcommit : ∀ batch {world}, p world → p (c.target.commit c.durable batch world).2)
    (steps : List Step) {world : σ} (hw : p world) : p (c.perform steps world).2 := by
  induction steps generalizing world with
  | nil => exact hw
  | cons s steps ih =>
      have hstep : p (c.takeStep s world).2 := by
        cases s with
        | commit doing batch =>
            have h := hcommit batch hw
            simp only [takeStep]
            split <;> next heq => rwa [heq] at h
        | pause doing written =>
            simp only [takeStep]
            split <;> exact hw
        | stop e => exact hw
      rcases hs : c.takeStep s world with ⟨_ | ⟨⟩, world₁⟩
      · rw [hs] at hstep
        rwa [perform_cons_error hs]
      · rw [hs] at hstep
        rw [perform_cons_ok hs]
        exact ih hstep

/-! ### Observing the world -/

end Channel

/-- A view of the world that accepted batches change in a way that does not depend on how the pairs
are split into batches, and that refused batches do not change. -/
structure Target.Tracks {σ α : Type} (t : Target σ) (view : σ → α) (act : α → List Entry → α) :
    Prop where
  act_nil : ∀ a, act a [] = a
  act_append : ∀ a batch more, act a (batch ++ more) = act (act a batch) more
  commit_ok : ∀ {durable batch world world'},
    t.commit durable batch world = (.ok (), world') → view world' = act (view world) batch
  commit_error : ∀ {durable batch world world' fault},
    t.commit durable batch world = (.error fault, world') → view world' = view world

/-- Worlds in which commits succeed and nothing is cancelled, and which stay so. -/
structure Channel.Calm {σ : Type} (c : Channel σ) (calm : σ → Prop) : Prop where
  commit : ∀ batch {world}, calm world →
    ∃ world', c.target.commit c.durable batch world = (.ok (), world') ∧ calm world'
  cancelled : ∀ {world}, calm world → c.cancelled world = false

namespace Channel

variable {σ α : Type} {c : Channel σ} {view : σ → α} {act : α → List Entry → α}

lemma view_takeStep_ok (ht : c.target.Tracks view act) {s : Step} {world world' : σ}
    (h : c.takeStep s world = (.ok (), world')) : view world' = act (view world) s.entries := by
  cases s with
  | commit doing batch =>
      simp only [takeStep] at h
      split at h
      · next hc =>
          cases h
          exact ht.commit_ok hc
      · cases h
  | pause doing written =>
      simp only [takeStep] at h
      split at h
      · cases h
      · cases h
        exact (ht.act_nil _).symm
  | stop e => cases h

lemma view_takeStep_error (ht : c.target.Tracks view act) {s : Step} {world world' : σ} {e : Error}
    (h : c.takeStep s world = (.error e, world')) : view world' = view world := by
  cases s with
  | commit doing batch =>
      simp only [takeStep] at h
      split at h
      · cases h
      · next hc =>
          cases h
          exact ht.commit_error hc
  | pause doing written =>
      simp only [takeStep] at h
      split at h
      · cases h
        rfl
      · cases h
  | stop e =>
      cases h
      rfl

theorem view_perform_ok (ht : c.target.Tracks view act) {steps : List Step} {world world' : σ}
    (h : c.perform steps world = (.ok (), world')) :
    view world' = act (view world) (steps.flatMap Step.entries) := by
  induction steps generalizing world with
  | nil =>
      cases h
      exact (ht.act_nil _).symm
  | cons s steps ih =>
      rcases hs : c.takeStep s world with ⟨_ | ⟨⟩, world₁⟩
      · rw [perform_cons_error hs] at h
        cases h
      · rw [perform_cons_ok hs] at h
        -- batches are not seen: acting with two in turn is acting with both at once
        rw [ih h, view_takeStep_ok ht hs, List.flatMap_cons, ht.act_append]

/-- Whatever the outcome, what was written is what some first steps write. -/
theorem view_perform (ht : c.target.Tracks view act) {steps : List Step} {world world' : σ}
    {r : Except Error Unit} (h : c.perform steps world = (r, world')) :
    ∃ done, done <+: steps ∧ view world' = act (view world) (done.flatMap Step.entries) := by
  cases r with
  | ok _ => exact ⟨steps, List.prefix_rfl, view_perform_ok ht h⟩
  | error e =>
      -- the step that failed wrote nothing
      obtain ⟨done, s, rest, reached, rfl, hdone, hs⟩ := perform_eq_error h
      refine ⟨done, List.prefix_append _ _, ?_⟩
      rw [view_takeStep_error ht hs, view_perform_ok ht hdone]

/-- The outcome of steps that meet no refusal and no cancellation. -/
def verdict (steps : List Step) : Except Error Unit :=
  match steps.findSome? Step.fault? with
  | some e => .error e
  | none => .ok ()

theorem perform_of_calm {calm : σ → Prop} (hc : c.Calm calm) (steps : List Step) {world : σ}
    (hw : calm world) :
    ∃ world', c.perform steps world = (verdict steps, world') ∧ calm world' := by
  induction steps generalizing world with
  | nil => exact ⟨world, rfl, hw⟩
  | cons s steps ih =>
      cases s with
      | commit doing batch =>
          obtain ⟨world₁, hcommit, hw₁⟩ := hc.commit batch hw
          obtain ⟨world', hrest, hw'⟩ := ih hw₁
          refine ⟨world', ?_, hw'⟩
          rw [perform_cons_ok (by rw [takeStep, hcommit]), hrest]
          rfl
      | pause doing written =>
          obtain ⟨world', hrest, hw'⟩ := ih hw
          refine ⟨world', ?_, hw'⟩
          rw [perform_cons_ok (by rw [takeStep, hc.cancelled hw, if_neg Bool.false_ne_true]), hrest]
          rfl
      | stop e => exact ⟨world, rfl, hw⟩

end Channel

end EpochSplit
