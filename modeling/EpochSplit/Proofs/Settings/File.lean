import EpochSplit.Settings.Toml
import Mathlib.Data.List.Nodup
/-!
# Settings files

A settings file is accepted if it is a document whose names are those of settings and whose values
are of their types; then it gives each setting the value under its name, and the others none
(`ofToml?_eq_some_iff`).
-/

namespace EpochSplit

/-- The value under a name, read as one of a setting. -/
def Toml.field? {α : Type} (pairs : List (String × Toml.Value)) (name : String)
    (read : Toml.Value → Option α) : Option α :=
  (pairs.lookup name).bind read

namespace Overrides

variable {o o' : Overrides} {p : String × Toml.Value} {pairs : List (String × Toml.Value)}

/-- What the pairs of a settings file say. -/
def ofPairs (pairs : List (String × Toml.Value)) : Overrides where
  sourcePath := Toml.field? pairs "source_path" Toml.Value.text?
  targetPath := Toml.field? pairs "target_path" Toml.Value.text?
  batchSize := Toml.field? pairs "batch_size" Toml.Value.count?
  compactAfterMigrate := Toml.field? pairs "compact_after_migrate" Toml.Value.truth?
  signatureEpochThreshold := Toml.field? pairs "signature_epoch_threshold" Toml.Value.word?
  mapSizeMb := Toml.field? pairs "map_size_mb" Toml.Value.count?

/-- A pair of the name of a setting and a value of its type. -/
inductive Known : String × Toml.Value → Prop
  | sourcePath {v : Toml.Value} (h : v.text?.isSome) : Known ("source_path", v)
  | targetPath {v : Toml.Value} (h : v.text?.isSome) : Known ("target_path", v)
  | batchSize {v : Toml.Value} (h : v.count?.isSome) : Known ("batch_size", v)
  | compactAfterMigrate {v : Toml.Value} (h : v.truth?.isSome) : Known ("compact_after_migrate", v)
  | signatureEpochThreshold {v : Toml.Value} (h : v.word?.isSome) :
      Known ("signature_epoch_threshold", v)
  | mapSizeMb {v : Toml.Value} (h : v.count?.isSome) : Known ("map_size_mb", v)

/-- Adding a pair gives one setting what its value is read as. -/
structure Added (o o' : Overrides) (p : String × Toml.Value) : Prop where
  known : Known p
  sourcePath : o'.sourcePath = if p.1 = "source_path" then p.2.text? else o.sourcePath
  targetPath : o'.targetPath = if p.1 = "target_path" then p.2.text? else o.targetPath
  batchSize : o'.batchSize = if p.1 = "batch_size" then p.2.count? else o.batchSize
  compactAfterMigrate : o'.compactAfterMigrate =
    if p.1 = "compact_after_migrate" then p.2.truth? else o.compactAfterMigrate
  signatureEpochThreshold : o'.signatureEpochThreshold =
    if p.1 = "signature_epoch_threshold" then p.2.word? else o.signatureEpochThreshold
  mapSizeMb : o'.mapSizeMb = if p.1 = "map_size_mb" then p.2.count? else o.mapSizeMb

lemma added_of_addField? (h : o.addField? p = some o') : Added o o' p := by
  obtain ⟨name, v⟩ := p
  unfold addField? at h
  split_ifs at h with hname hname hname hname hname hname <;>
    simp only at hname h <;> obtain ⟨value, hv, rfl⟩ := Option.map_eq_some_iff.1 h <;> subst hname
  · exact ⟨.sourcePath (by simp [hv]), by simp [hv], by simp, by simp, by simp, by simp, by simp⟩
  · exact ⟨.targetPath (by simp [hv]), by simp, by simp [hv], by simp, by simp, by simp, by simp⟩
  · exact ⟨.batchSize (by simp [hv]), by simp, by simp, by simp [hv], by simp, by simp, by simp⟩
  · exact ⟨.compactAfterMigrate (by simp [hv]), by simp, by simp, by simp, by simp [hv], by simp,
      by simp⟩
  · exact ⟨.signatureEpochThreshold (by simp [hv]), by simp, by simp, by simp, by simp,
      by simp [hv], by simp⟩
  · exact ⟨.mapSizeMb (by simp [hv]), by simp, by simp, by simp, by simp, by simp, by simp [hv]⟩

lemma exists_addField? (h : Known p) (o : Overrides) : ∃ o', o.addField? p = some o' := by
  cases h with
  | _ h =>
      obtain ⟨value, hv⟩ := Option.isSome_iff_exists.1 h
      simp [addField?, hv]

/-- Adding pairs of known names and types succeeds, and nothing else does. -/
lemma isSome_foldlM_addField? (pairs : List (String × Toml.Value)) (o : Overrides) :
    (pairs.foldlM addField? o).isSome ↔ ∀ p ∈ pairs, Known p := by
  induction pairs generalizing o with
  | nil => simp
  | cons p pairs ih =>
      rw [List.foldlM_cons, List.forall_mem_cons]
      cases hadd : o.addField? p with
      | none =>
          refine ⟨fun h => (by cases h), fun h => ?_⟩
          obtain ⟨o', ho'⟩ := exists_addField? h.1 o
          rw [hadd] at ho'
          cases ho'
      | some o' =>
          have hknown := (added_of_addField? hadd).known
          exact ⟨fun h => ⟨hknown, (ih o').1 h⟩, fun h => (ih o').2 h.2⟩

/-- A setting has the value under its name in the end, as no name comes twice. -/
lemma foldlM_addField?_field {α : Type} (field : Overrides → Option α) (name : String)
    (read : Toml.Value → Option α)
    (hstep : ∀ {o o' p}, Added o o' p → field o' = if p.1 = name then read p.2 else field o)
    (hnodup : (pairs.map Prod.fst).Nodup) (h : pairs.foldlM addField? o = some o') :
    field o' = if name ∈ pairs.map Prod.fst then Toml.field? pairs name read else field o := by
  induction pairs generalizing o with
  | nil =>
      cases h
      simp
  | cons p pairs ih =>
      obtain ⟨o₁, hadd, hothers⟩ := Option.bind_eq_some_iff.1 h
      obtain ⟨hnew, hnodup⟩ := List.nodup_cons.1 hnodup
      rw [ih hnodup hothers, hstep (added_of_addField? hadd), List.map_cons]
      obtain ⟨name', v⟩ := p
      by_cases hname : name' = name
      · -- the other pairs have other names and leave the field as it is
        subst hname
        rw [if_neg hnew, if_pos rfl, if_pos List.mem_cons_self, Toml.field?,
          List.lookup_cons_self]
        rfl
      · have hlookup : Toml.field? ((name', v) :: pairs) name read =
            Toml.field? pairs name read := by
          have hne : (name == name') = false := by simpa using Ne.symm hname
          rw [Toml.field?, Toml.field?, List.lookup_cons, hne]
        have hmem : name ∈ name' :: pairs.map Prod.fst ↔ name ∈ pairs.map Prod.fst := by
          simp [Ne.symm hname]
        rw [if_neg hname, hlookup]
        simp only [hmem]

lemma field?_eq_none {α : Type} {name : String} {read : Toml.Value → Option α}
    (h : name ∉ pairs.map Prod.fst) : Toml.field? pairs name read = none := by
  have hlookup : pairs.lookup name = none := by
    rw [List.lookup_eq_none_iff]
    intro p hp
    have hne : name ≠ p.1 := fun heq => h (heq ▸ List.mem_map_of_mem hp)
    simpa using hne
  rw [Toml.field?, hlookup]
  rfl

/-- What pairs add to nothing. -/
lemma foldlM_addField?_empty (hnodup : (pairs.map Prod.fst).Nodup)
    (h : pairs.foldlM addField? {} = some o) : o = ofPairs pairs := by
  have hfield : ∀ {α : Type} (field : Overrides → Option α) (name : String)
      (read : Toml.Value → Option α), field {} = none →
      (∀ {o o' p}, Added o o' p → field o' = if p.1 = name then read p.2 else field o) →
      field o = Toml.field? pairs name read := by
    intro α field name read hnone hstep
    rw [foldlM_addField?_field field name read hstep hnodup h]
    by_cases hname : name ∈ pairs.map Prod.fst
    · rw [if_pos hname]
    · rw [if_neg hname, hnone, field?_eq_none hname]
  have hsource := hfield sourcePath _ _ rfl Added.sourcePath
  have htarget := hfield targetPath _ _ rfl Added.targetPath
  have hbatch := hfield batchSize _ _ rfl Added.batchSize
  have hcompact := hfield compactAfterMigrate _ _ rfl Added.compactAfterMigrate
  have hthreshold := hfield signatureEpochThreshold _ _ rfl Added.signatureEpochThreshold
  have hmap := hfield mapSizeMb _ _ rfl Added.mapSizeMb
  cases o
  simp only at hsource htarget hbatch hcompact hthreshold hmap
  rw [ofPairs, hsource, htarget, hbatch, hcompact, hthreshold, hmap]

end Overrides

namespace Toml

lemma nodup_of_read? {text : String} {pairs : List (String × Value)}
    (h : read? text = some pairs) : (pairs.map Prod.fst).Nodup := by
  obtain ⟨pairs', -, h⟩ := Option.bind_eq_some_iff.1 h
  by_cases hnodup : (pairs'.map Prod.fst).Nodup
  · rw [if_pos hnodup] at h
    cases h
    exact hnodup
  · rw [if_neg hnodup] at h
    cases h

end Toml

/-- A settings file gives what its pairs say, if all of them are known. -/
theorem Overrides.ofToml?_eq_some_iff {text : String} {o : Overrides} :
    ofToml? text = some o ↔
      ∃ pairs, Toml.read? text = some pairs ∧ (∀ p ∈ pairs, Known p) ∧ o = ofPairs pairs := by
  constructor
  · intro h
    obtain ⟨pairs, hread, hadd⟩ := Option.bind_eq_some_iff.1 h
    refine ⟨pairs, hread, ?_, foldlM_addField?_empty (Toml.nodup_of_read? hread) hadd⟩
    rw [← isSome_foldlM_addField? pairs {}, hadd]
    rfl
  · rintro ⟨pairs, hread, hknown, rfl⟩
    obtain ⟨o, hadd⟩ := Option.isSome_iff_exists.1 ((isSome_foldlM_addField? pairs {}).2 hknown)
    rw [ofToml?, hread, Option.bind_some, hadd,
      foldlM_addField?_empty (Toml.nodup_of_read? hread) hadd]

end EpochSplit
