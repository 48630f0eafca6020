import EpochSplit.Metadata.Json
import EpochSplit.Proofs.Json.Fields
import EpochSplit.Proofs.Maps
/-!
# Metadata in JSON, and back

Metadata written as JSON, on one line or over several, are read back as they were: whatever the
ranges of an epoch are, and whatever epoch an entry is about that is filed under another one.  The
text has its epochs in ascending order of their numbers, which is not the order of their names.
-/

namespace EpochSplit

/-! ### Records -/

lemma TickRange.ofJson?_toJson (r : TickRange) : ofJson? r.toJson = some r := by
  have hfields : r.toJson.fields? ["start", "end"] =
      some [.natural r.start.toNat, .natural r.stop.toNat] :=
    Json.fields?_object rfl (by decide) (by decide)
  rw [ofJson?, hfields]
  simp only [Json.toWord?_natural, Option.bind_eq_bind, Option.bind_some]
  rfl

lemma EpochMetadata.ofJson?_toJson (m : EpochMetadata) : ofJson? m.toJson = some m := by
  have hfields : m.toJson.fields? ["epoch", "processed_tick_ranges", "last_processed_tick"] =
      some [.natural m.epoch.toNat, .array (m.ranges.map TickRange.toJson),
        .natural m.lastTick.toNat] :=
    Json.fields?_object rfl (by decide) (by decide)
  have hranges : (m.ranges.map TickRange.toJson).mapM TickRange.ofJson? = some m.ranges := by
    rw [List.mapM_map, Json.mapM_eq_some_map (g := id), List.map_id]
    exact fun r _ => r.ofJson?_toJson
  rw [ofJson?, hfields]
  simp only [Json.toWord?_natural, hranges, Option.bind_eq_bind, Option.bind_some]
  rfl

namespace StoreMetadata

lemma ofJson?_toJson (s : StoreMetadata) : ofJson? s.toJson = some s := by
  have hfields : s.toJson.fields? ["epochs"] =
      some [.object (s.epochs.toList.map fun p => (toString p.1.toNat, p.2.toJson))] :=
    Json.fields?_object rfl (by decide) (by decide)
  have hpairs : s.epochs.toList.foldl (fun epochs p => epochs.insert p.1 p.2) ∅ = s.epochs :=
    foldl_insert_of_perm (List.Perm.refl _)
  rw [ofJson?, hfields]
  refine (congrArg (Option.bind · _)
    (List.mapM_map.trans (Json.mapM_eq_some_map (g := id) fun p _ => ?_))).trans ?_
  · simp only [Function.comp_apply, Json.word?_toString, p.2.ofJson?_toJson, Option.bind_eq_bind,
      Option.bind_some]
    rfl
  · rw [List.map_id, Option.bind_some, hpairs]
    rfl

end StoreMetadata

/-! ### Texts -/

lemma TickRange.wellWritten_toJson (r : TickRange) : r.toJson.WellWritten :=
  Json.wellWritten_noFields
    |>.field (Json.isString_of_plain rfl) (Json.wellWritten_natural _)
    |>.field (Json.isString_of_plain rfl) (Json.wellWritten_natural _)

lemma EpochMetadata.wellWritten_toJson (m : EpochMetadata) : m.toJson.WellWritten := by
  have hranges : (Json.array (m.ranges.map TickRange.toJson)).WellWritten := by
    refine .array fun j hj => ?_
    obtain ⟨r, -, rfl⟩ := List.mem_map.mp hj
    exact r.wellWritten_toJson
  exact Json.wellWritten_noFields
    |>.field (Json.isString_of_plain rfl) (Json.wellWritten_natural _)
    |>.field (Json.isString_of_plain rfl) hranges
    |>.field (Json.isString_of_plain rfl) (Json.wellWritten_natural _)

namespace StoreMetadata

/-- The members of the text, one for each epoch, in the order of the text. -/
def members (s : StoreMetadata) : List (String × Json) :=
  s.epochs.toList.map fun p => (toString p.1.toNat, p.2.toJson)

lemma wellWritten_toJson (s : StoreMetadata) : s.toJson.WellWritten := by
  have hepochs : (Json.object s.members).WellWritten := by
    refine .object ?_ ?_ <;> intro m hm <;> obtain ⟨p, -, rfl⟩ := List.mem_map.mp hm
    · exact Json.isString_toString _
    · exact p.2.wellWritten_toJson
  exact Json.wellWritten_noFields.field (Json.isString_of_plain rfl) hepochs

/-- What becomes of metadata that are written to a text and read from it. -/
structure SurvivesJson (s : StoreMetadata) (write : Json → String) : Prop where
  /-- They are read back as they were. -/
  back : parse? (write s.toJson) = some s
  /-- What is read back is written as the same text again. -/
  again : ∀ s', parse? (write s.toJson) = some s' → write s'.toJson = write s.toJson
  /-- The text has one member for each epoch, named by its number, and the numbers ascend. -/
  ordered : ∃ members, Json.parse? (write s.toJson) = some (.object [("epochs", .object members)]) ∧
    members.map Prod.fst = s.epochNumbers.map (fun e => toString e.toNat) ∧
    members.map Prod.snd = s.toList.map EpochMetadata.toJson ∧
    s.epochNumbers.Pairwise (· < ·)

lemma survivesJson {write : Json → String} (s : StoreMetadata)
    (hwrite : ∀ {j : Json}, j.WellWritten → Json.parse? (write j) = some j) :
    SurvivesJson s write := by
  have htree := hwrite s.wellWritten_toJson
  have hback : parse? (write s.toJson) = some s := by
    rw [parse?, htree, Option.bind_some, ofJson?_toJson]
  refine ⟨hback, fun s' hs' => ?_, s.members, htree, ?_, ?_, s.pairwise_epochNumbers⟩
  · rw [hback] at hs'
    cases hs'
    rfl
  · rw [members, epochNumbers, ← Std.ExtTreeMap.map_fst_toList_eq_keys, List.map_map, List.map_map]
    rfl
  · rw [members, toList, List.map_map, List.map_map]
    rfl

/-- Metadata survive JSON, written on one line or over several. -/
theorem survivesJson_compact_pretty (s : StoreMetadata) :
    SurvivesJson s Json.compact ∧ SurvivesJson s Json.pretty :=
  ⟨s.survivesJson Json.WellWritten.parse_compact, s.survivesJson Json.WellWritten.parse_pretty⟩

-- as texts the names would stand the other way round
example : (ofList [⟨10, [⟨5, 3⟩], 7⟩, ⟨9, [], 0⟩]).members.map Prod.fst = ["9", "10"] := by decide

end StoreMetadata

end EpochSplit
