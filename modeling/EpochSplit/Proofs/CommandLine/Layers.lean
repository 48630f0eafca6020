import EpochSplit.CommandLine.Run
import EpochSplit.Proofs.CommandLine.Levels
import EpochSplit.Proofs.Settings.File
/-!
# Layers of settings

What the settings of an invocation are can be read off the command line, the environment and the
settings file (`parse_resolvesSettings`).  A setting has the value of its option, or else that of
its variable, or else that in the settings file, or else its default (`Layered`).  The switch that
has stores compacted is different: it has no option that turns it off, and a variable that says no
does not turn off what the settings file turned on (`Switched`).
-/

namespace EpochSplit.CommandLine

variable {args : List String} {env : Environment} {i : Invocation} {rule : OptionRule}

/-! ### Options of both levels -/

/-- Some word of the command line begins the option. -/
def OptionRule.Stands (rule : OptionRule) (args : List String) : Prop :=
  ∃ word ∈ args, ∃ attached, rule.Begins word attached

/-- The last word that begins the option has the value attached to it or in front of what
follows. -/
def OptionRule.GivenLast (rule : OptionRule) (args : List String) (value : String) : Prop :=
  ∃ before word after, args = before ++ word :: after ∧ ¬rule.Stands after ∧
    (rule.Begins word (some value) ∨ rule.Begins word none ∧ ∃ others, after = value :: others)

namespace Parts

lemma mem_commandRules (p : Parts args env i) (hrule : rule ∈ commonRules) :
    rule ∈ (commandGrammar p.rules).rules := List.mem_append_right _ hrule

/-- An option that does not stand among words does not stand on the level that they are. -/
lemma ofRule_eq_nil (p : Parts args env i) (hrule : rule ∈ commonRules) {occs : List Occurrence}
    (hknown : ∀ o ∈ occs, o.rule ∈ (commandGrammar p.rules).rules)
    (hspelled : ∀ o ∈ occs, o.rule.Spelling o.values o.words)
    (h : ¬rule.Stands (occs.flatMap (·.words))) : Occurrence.ofRule occs rule = [] := by
  refine List.filter_eq_nil_iff.2 fun o ho hname => h ?_
  have hsame := p.asks.distinct.eq_of_not_apart (hknown o ho) (p.mem_commandRules hrule)
    fun hapart => hapart.1 (by simpa using hname)
  obtain ⟨head, attached, more, hbegins, hwords, -⟩ := Occurrence.exists_head (hspelled o ho)
  refine ⟨head, List.mem_flatMap.2 ⟨o, ho, ?_⟩, attached, hsame ▸ hbegins⟩
  rw [hwords]
  exact List.mem_cons_self

/-- The last word that begins an option decides about it, on whichever level it stands. -/
lemma commonOf_of_last (p : Parts args env i) (hrule : rule ∈ commonRules)
    (honce : rule.repeatable = false) {word : String} {attached : Option String}
    {before after : List String} (hargs : args = before ++ word :: after)
    (hbegins : rule.Begins word attached) (hlast : ¬rule.Stands after) :
    ∃ (o : Occurrence) (more others : List String), o.Follows attached more ∧
      after = more ++ others ∧ commonOf p.top p.sub rule = some ⟨o.values, true⟩ ∧
      o.values.length = rule.arity ∧ ∀ value ∈ o.values, rule.check value = .ok () := by
  obtain ⟨o, more, others, rfl, hfollows, -, hafter, ⟨htop, hbehind⟩ | hsub⟩ :=
    p.exists_occurrence (p.mem_commandRules hrule) hbegins hargs
  · refine ⟨o, more, others, hfollows, hafter, ?_, p.top_gives.complete o htop,
      p.top_gives.checked o htop⟩
    -- behind the command the option does not stand, or else this word would not be the last
    have hnone : Occurrence.ofRule p.subOccs o.rule = [] := by
      refine p.ofRule_eq_nil hrule p.sub_gives.known p.sub_gives.spelled ?_
      rintro ⟨w, hw, hstands⟩
      exact hlast ⟨w, hafter ▸ List.mem_append_right _ (hbehind hw), hstands⟩
    have hsub := (p.sub_gives.absent o.rule (p.mem_commandRules hrule) hnone).1
    rw [commonOf, p.top_gives.getElem?_of_mem htop honce, hsub]
    cases o.rule.fallback? env <;> rfl
  · refine ⟨o, more, others, hfollows, hafter, ?_, p.sub_gives.complete o hsub,
      p.sub_gives.checked o hsub⟩
    -- what stands behind the command goes before whatever the top level says
    rw [commonOf, p.sub_gives.getElem?_of_mem hsub honce]
    cases p.top[o.rule.name]? <;> simp

/-- An option that does not stand there has the value of its variable. -/
lemma commonOf_of_absent (p : Parts args env i) (hrule : rule ∈ commonRules)
    (h : ¬rule.Stands args) :
    commonOf p.top p.sub rule = (rule.fallback? env).map (fun value => ⟨[value], false⟩) ∧
      ∀ value, rule.fallback? env = some value → rule.check value = .ok () := by
  have hsubset : ∀ {words}, words ⊆ args → ¬rule.Stands words := fun hwords hstands =>
    h (hstands.imp fun _ hw => ⟨hwords hw.1, hw.2⟩)
  have hsub := p.ofRule_eq_nil hrule p.sub_gives.known p.sub_gives.spelled <| hsubset <| by
    conv_rhs => rw [p.args_eq]
    intro w hw
    simp [hw]
  have htop := p.ofRule_eq_nil hrule
    (fun o ho => List.mem_append_right _ (p.top_gives.known o ho)) p.top_gives.spelled <|
      hsubset <| by
        conv_rhs => rw [p.args_eq]
        exact List.subset_append_left _ _
  obtain ⟨hsub, hcheck⟩ := p.sub_gives.absent rule (p.mem_commandRules hrule) hsub
  refine ⟨?_, hcheck⟩
  rw [commonOf, hsub, (p.top_gives.absent rule hrule htop).1]
  cases rule.fallback? env <;> simp

lemma commonOf_of_givenLast (p : Parts args env i) (hrule : rule ∈ commonRules)
    (honce : rule.repeatable = false) (harity : rule.arity = 1) {value : String}
    (h : rule.GivenLast args value) :
    commonOf p.top p.sub rule = some ⟨[value], true⟩ ∧ rule.check value = .ok () := by
  obtain ⟨before, word, after, hargs, hlast, hbegins | ⟨hbegins, others', hvalue⟩⟩ := h
  · obtain ⟨o, more, others, hfollows, -, hgiven, -, hcheck⟩ :=
      p.commonOf_of_last hrule honce hargs hbegins hlast
    obtain ⟨hnone, -⟩ | ⟨value', hsome, hvalues, -⟩ := hfollows
    · cases hnone
    · cases hsome
      rw [hvalues] at hgiven hcheck
      exact ⟨hgiven, hcheck value (List.mem_singleton_self value)⟩
  · obtain ⟨o, more, others, hfollows, hafter, hgiven, hlength, hcheck⟩ :=
      p.commonOf_of_last hrule honce hargs hbegins hlast
    obtain ⟨-, rfl⟩ | ⟨value', hsome, -⟩ := hfollows
    · obtain ⟨value', hvalues⟩ := List.length_eq_one_iff.1 (hlength.trans harity)
      rw [hvalues] at hgiven hcheck hafter
      obtain ⟨rfl, -⟩ := List.cons.inj (hvalue.symm.trans hafter)
      exact ⟨hgiven, hcheck value (List.mem_singleton_self value)⟩
    · cases hsome

lemma exists_givenLast (p : Parts args env i) (hrule : rule ∈ commonRules)
    (honce : rule.repeatable = false) (harity : rule.arity = 1) (h : rule.Stands args) :
    ∃ value, rule.GivenLast args value := by
  obtain ⟨before, word, after, hargs, ⟨attached, hbegins⟩, hlast⟩ := exists_last h
  have hafter : ¬rule.Stands after := fun ⟨w, hw, hstands⟩ => hlast w hw hstands
  cases attached with
  | some value => exact ⟨value, before, word, after, hargs, hafter, .inl hbegins⟩
  | none =>
      obtain ⟨o, more, others, hfollows, hsplit, -, hlength, -⟩ :=
        p.commonOf_of_last hrule honce hargs hbegins hafter
      obtain ⟨-, rfl⟩ | ⟨value', hsome, -⟩ := hfollows
      · obtain ⟨value, hvalues⟩ := List.length_eq_one_iff.1 (hlength.trans harity)
        rw [hvalues] at hsplit
        exact ⟨value, before, word, after, hargs, hafter, .inr ⟨hbegins, others, hsplit⟩⟩
      · cases hsome

end Parts

/-! ### Layers -/

/-- The value of a setting: what its option says if it is given, else what its variable says if it
is set, else what the settings file says if it names the setting, else the default. -/
inductive Layered {α : Type} (rule : OptionRule) (args : List String) (env : Environment)
    (read : String → Except UsageFault α) (file : Option α) (default : α) : α → Prop
  | flag {text : String} {a : α} (given : rule.GivenLast args text) (readable : read text = .ok a) :
      Layered rule args env read file default a
  | environment {text : String} {a : α} (absent : ¬rule.Stands args)
      (set : rule.fallback? env = some text) (readable : read text = .ok a) :
      Layered rule args env read file default a
  | file {a : α} (absent : ¬rule.Stands args) (unset : rule.fallback? env = none)
      (named : file = some a) : Layered rule args env read file default a
  | default (absent : ¬rule.Stands args) (unset : rule.fallback? env = none)
      (unnamed : file = none) : Layered rule args env read file default default

/-- The value of a switch: it is on if its flag is given or its variable says so, else what the
settings file says if it names it, else off.  A variable that says no leaves it to the file. -/
inductive Switched (rule : OptionRule) (args : List String) (env : Environment)
    (file : Option Bool) : Bool → Prop
  | flag (given : rule.Stands args) : Switched rule args env file true
  | environment (set : rule.fallback? env = some "true") : Switched rule args env file true
  | file {b : Bool} (absent : ¬rule.Stands args) (unset : rule.fallback? env ≠ some "true")
      (named : file = some b) : Switched rule args env file b
  | default (absent : ¬rule.Stands args) (unset : rule.fallback? env ≠ some "true")
      (unnamed : file = none) : Switched rule args env file false

lemma valueOf_of_readable {α : Type} {read : String → Except UsageFault α} {text : String} {a : α}
    (h : read text = .ok a) (explicit : Bool) :
    valueOf read (some ⟨[text], explicit⟩) = some a := by
  simp [valueOf, h, Except.toOption]

namespace Parts

/-- An option of both levels gives its layer, if its values are checked to be readable. -/
theorem layered_iff (p : Parts args env i) (rule : OptionRule) (hrule : rule ∈ commonRules)
    (honce : rule.repeatable = false) (harity : rule.arity = 1) {α : Type}
    {read : String → Except UsageFault α} (hcheck : rule.check = checking read) (file : Option α)
    (default a : α) :
    Layered rule args env read file default a ↔
      a = (valueOf read (commonOf p.top p.sub rule)).getD (file.getD default) := by
  constructor
  · intro h
    cases h with
    | flag given readable =>
        rw [(p.commonOf_of_givenLast hrule honce harity given).1,
          valueOf_of_readable readable, Option.getD_some]
    | environment absent set readable =>
        rw [(p.commonOf_of_absent hrule absent).1, set, Option.map_some,
          valueOf_of_readable readable, Option.getD_some]
    | file absent unset named =>
        rw [(p.commonOf_of_absent hrule absent).1, unset, named]
        rfl
    | default absent unset unnamed =>
        rw [(p.commonOf_of_absent hrule absent).1, unset, unnamed]
        rfl
  · rintro rfl
    by_cases hstands : rule.Stands args
    · obtain ⟨text, given⟩ := p.exists_givenLast hrule honce harity hstands
      obtain ⟨hcommon, hchecked⟩ := p.commonOf_of_givenLast hrule honce harity given
      rw [hcheck] at hchecked
      obtain ⟨a, readable⟩ := checking_eq_ok hchecked
      rw [hcommon, valueOf_of_readable readable]
      exact .flag given readable
    · obtain ⟨hcommon, hchecked⟩ := p.commonOf_of_absent hrule hstands
      rw [hcommon]
      cases hset : rule.fallback? env with
      | some text =>
          have hchecked := hchecked text hset
          rw [hcheck] at hchecked
          obtain ⟨a, readable⟩ := checking_eq_ok hchecked
          rw [Option.map_some, valueOf_of_readable readable]
          exact .environment hstands hset readable
      | none =>
          cases hfile : file with
          | some a => exact .file hstands hset rfl
          | none => exact .default hstands hset rfl

lemma flagOf_of_stands (p : Parts args env i) (hrule : rule ∈ commonRules)
    (honce : rule.repeatable = false) (h : rule.Stands args) :
    flagOf (commonOf p.top p.sub rule) = true := by
  obtain ⟨before, word, after, hargs, ⟨attached, hbegins⟩, hlast⟩ := exists_last h
  obtain ⟨o, more, others, -, -, hgiven, -⟩ := p.commonOf_of_last hrule honce hargs hbegins
    fun ⟨w, hw, hstands⟩ => hlast w hw hstands
  rw [hgiven, flagOf, Bool.true_or]

lemma flagOf_of_absent (p : Parts args env i) (hrule : rule ∈ commonRules)
    (h : ¬rule.Stands args) :
    flagOf (commonOf p.top p.sub rule) = true ↔ rule.fallback? env = some "true" := by
  rw [(p.commonOf_of_absent hrule h).1]
  cases rule.fallback? env <;> simp [flagOf]

/-- A flag of both levels gives its layer. -/
theorem switched_iff (p : Parts args env i) (rule : OptionRule) (hrule : rule ∈ commonRules)
    (honce : rule.repeatable = false) (file : Option Bool) (b : Bool) :
    Switched rule args env file b ↔
      b = if flagOf (commonOf p.top p.sub rule) then true else file.getD false := by
  by_cases hstands : rule.Stands args
  · rw [if_pos (p.flagOf_of_stands hrule honce hstands)]
    constructor
    · intro h
      cases h with
      | flag given => rfl
      | environment set => rfl
      | file absent unset named => exact absurd hstands absent
      | default absent unset unnamed => exact absurd hstands absent
    · rintro rfl
      exact .flag hstands
  · simp only [p.flagOf_of_absent hrule hstands]
    constructor
    · intro h
      cases h with
      | flag given => exact absurd given hstands
      | environment set => rw [if_pos set]
      | file absent unset named => rw [if_neg unset, named, Option.getD_some]
      | default absent unset unnamed => rw [if_neg unset, unnamed, Option.getD_none]
    · rintro rfl
      by_cases hset : rule.fallback? env = some "true"
      · rw [if_pos hset]
        exact .environment hset
      · rw [if_neg hset]
        cases file with
        | some b => exact .file hstands hset rfl
        | none => exact .default hstands hset rfl

end Parts

/-! ### Settings -/

/-- The settings file that the command line names, or else the environment. -/
inductive NamesFile (args : List String) (env : Environment) : Option String → Prop
  | flag {path : String} (given : configOption.GivenLast args path) : NamesFile args env (some path)
  | environment {path : String} (absent : ¬configOption.Stands args)
      (set : configOption.fallback? env = some path) : NamesFile args env (some path)
  | none (absent : ¬configOption.Stands args) (unset : configOption.fallback? env = none) :
      NamesFile args env none

/-- The pairs that a settings file holds; if there is none, it holds nothing. -/
inductive FileHolds (d : Disk) : Option String → List (String × Toml.Value) → Prop
  | none : FileHolds d none []
  | file {path text : String} {pairs : List (String × Toml.Value)}
      (readable : d.readText path = .ok text) (wellFormed : Toml.read? text = some pairs)
      (known : ∀ p ∈ pairs, Overrides.Known p) : FileHolds d (some path) pairs

/-- Each setting has the value that its layers give it. -/
structure LayeredSettings (args : List String) (env : Environment)
    (pairs : List (String × Toml.Value)) (s : Settings) : Prop where
  sourcePath : Layered sourceOption args env readPath
    (Toml.field? pairs "source_path" Toml.Value.text?) "storage/old" s.sourcePath
  targetPath : Layered targetOption args env readPath
    (Toml.field? pairs "target_path" Toml.Value.text?) "storage/new" s.targetPath
  batchSize : Layered batchSizeOption args env readCount
    (Toml.field? pairs "batch_size" Toml.Value.count?) 10000 s.batchSize
  compactAfterMigrate : Switched compactOption args env
    (Toml.field? pairs "compact_after_migrate" Toml.Value.truth?) s.compactAfterMigrate
  signatureEpochThreshold : Layered thresholdOption args env readWord
    (Toml.field? pairs "signature_epoch_threshold" Toml.Value.word?) 158 s.signatureEpochThreshold
  mapSizeMb : Layered mapSizeOption args env readCount
    (Toml.field? pairs "map_size_mb" Toml.Value.count?) 65536 s.mapSizeMb

/-- What the settings of an invocation are. -/
structure Invocation.ResolvesSettings (i : Invocation) (args : List String) (env : Environment)
    (d : Disk) : Prop where
  config : NamesFile args env i.config
  /-- The layers give each setting one value. -/
  layered : ∀ pairs, ∃! s, LayeredSettings args env pairs s
  /-- The settings are those of the layers, and they are valid. -/
  ok : ∀ s, i.settings d = .ok s ↔
    ∃ pairs, FileHolds d i.config pairs ∧ LayeredSettings args env pairs s ∧ s.validate = .ok ()
  /-- There are none just if the file cannot be read or understood, or if they are not valid. -/
  error : (∃ fault, i.settings d = .error fault) ↔
    (¬∃ pairs, FileHolds d i.config pairs) ∨
      ∃ pairs s fault, FileHolds d i.config pairs ∧ LayeredSettings args env pairs s ∧
        s.validate = .error fault

lemma readPath_eq_ok {value path : String} (h : readPath value = .ok path) : path = value := by
  unfold readPath at h
  split_ifs at h
  cases h
  rfl

namespace Invocation

/-- The settings of a settings file with those of an invocation laid over them. -/
def layOver (i : Invocation) (pairs : List (String × Toml.Value)) : Settings :=
  (Settings.override {} (Overrides.ofPairs pairs)).override i.overrides

/-- A settings file that can be read and understood gives settings, if they are valid. -/
lemma settings_of_holds {d : Disk} {pairs : List (String × Toml.Value)}
    (h : FileHolds d i.config pairs) :
    i.settings d = (i.layOver pairs).validate.map fun _ => i.layOver pairs := by
  have hbase : i.settings d = (do (i.layOver pairs).validate; return i.layOver pairs) := by
    generalize hconfig : i.config = config at h
    cases h with
    | none =>
        rw [settings, hconfig]
        rfl
    | file readable wellFormed known =>
        have ho := Overrides.ofToml?_eq_some_iff.2 ⟨pairs, wellFormed, known, rfl⟩
        simp only [settings, hconfig, readable, ho, pure_bind]
        rfl
  rw [hbase]
  cases (i.layOver pairs).validate <;> rfl

/-- Any other file gives none. -/
lemma settings_of_not_holds {d : Disk} (h : ¬∃ pairs, FileHolds d i.config pairs) :
    ∃ fault, i.settings d = .error fault := by
  cases hconfig : i.config with
  | none => exact absurd ⟨[], hconfig ▸ .none⟩ h
  | some path =>
      cases hread : d.readText path with
      | error reason =>
          refine ⟨.unreadable path reason, ?_⟩
          simp only [settings, hconfig, hread]
          rfl
      | ok text =>
          cases ho : Overrides.ofToml? text with
          | none =>
              refine ⟨.malformed path "not a settings file", ?_⟩
              simp only [settings, hconfig, hread, ho]
              rfl
          | some o =>
              obtain ⟨pairs, wellFormed, known, -⟩ := Overrides.ofToml?_eq_some_iff.1 ho
              exact absurd ⟨pairs, hconfig ▸ .file hread wellFormed known⟩ h

lemma settings_eq_ok_iff {d : Disk} {s : Settings} : i.settings d = .ok s ↔
    ∃ pairs, FileHolds d i.config pairs ∧ s = i.layOver pairs ∧ s.validate = .ok () := by
  constructor
  · intro hok
    by_cases hfile : ∃ pairs, FileHolds d i.config pairs
    · obtain ⟨pairs, hholds⟩ := hfile
      rw [settings_of_holds hholds] at hok
      cases hvalid : (i.layOver pairs).validate with
      | error fault =>
          rw [hvalid] at hok
          cases hok
      | ok =>
          rw [hvalid] at hok
          cases hok
          exact ⟨pairs, hholds, rfl, hvalid⟩
    · obtain ⟨fault, herror⟩ := settings_of_not_holds hfile
      rw [herror] at hok
      cases hok
  · rintro ⟨pairs, hholds, rfl, hvalid⟩
    rw [settings_of_holds hholds, hvalid]
    rfl

lemma settings_eq_error_iff {d : Disk} : (∃ fault, i.settings d = .error fault) ↔
    (¬∃ pairs, FileHolds d i.config pairs) ∨
      ∃ pairs s fault, FileHolds d i.config pairs ∧ s = i.layOver pairs ∧
        s.validate = .error fault := by
  constructor
  · rintro ⟨fault, herror⟩
    refine or_iff_not_imp_left.2 fun hfile => ?_
    obtain ⟨pairs, hholds⟩ := not_not.1 hfile
    rw [settings_of_holds hholds] at herror
    cases hvalid : (i.layOver pairs).validate with
    | error fault => exact ⟨pairs, _, fault, hholds, rfl, hvalid⟩
    | ok =>
        rw [hvalid] at herror
        cases herror
  · rintro (hfile | ⟨pairs, s, fault, hholds, rfl, hvalid⟩)
    · exact settings_of_not_holds hfile
    · rw [settings_of_holds hholds, hvalid]
      exact ⟨fault, rfl⟩

end Invocation

namespace Parts

/-- The layers give just the settings of the file with those of the invocation laid over them. -/
lemma layeredSettings_iff (p : Parts args env i) (pairs : List (String × Toml.Value))
    (s : Settings) : LayeredSettings args env pairs s ↔ s = i.layOver pairs := by
  have hover : i.layOver pairs = (Settings.override {} (Overrides.ofPairs pairs)).override
      (Invocation.ofLevels p.top p.sub i.command).overrides := by
    rw [← p.ofLevels]
    rfl
  rw [hover]
  have hsource := p.layered_iff sourceOption (by simp [commonRules]) rfl rfl rfl
    (Toml.field? pairs "source_path" Toml.Value.text?) "storage/old"
  have htarget := p.layered_iff targetOption (by simp [commonRules]) rfl rfl rfl
    (Toml.field? pairs "target_path" Toml.Value.text?) "storage/new"
  have hbatch := p.layered_iff batchSizeOption (by simp [commonRules]) rfl rfl rfl
    (Toml.field? pairs "batch_size" Toml.Value.count?) 10000
  have hcompact := p.switched_iff compactOption (by simp [commonRules]) rfl
    (Toml.field? pairs "compact_after_migrate" Toml.Value.truth?)
  -- the flag is laid over the file only where it is on
  have hswitch (b : Bool) : (if flagOf (commonOf p.top p.sub compactOption) then some true
      else none).getD b = if flagOf (commonOf p.top p.sub compactOption) then true else b :=
    apply_ite (Option.getD · b) ..
  have hthreshold := p.layered_iff thresholdOption (by simp [commonRules]) rfl rfl rfl
    (Toml.field? pairs "signature_epoch_threshold" Toml.Value.word?) 158
  have hmap := p.layered_iff mapSizeOption (by simp [commonRules]) rfl rfl rfl
    (Toml.field? pairs "map_size_mb" Toml.Value.count?) 65536
  constructor
  · intro h
    have hsource := (hsource _).1 h.sourcePath
    have htarget := (htarget _).1 h.targetPath
    have hbatch := (hbatch _).1 h.batchSize
    have hcompact := (hcompact _).1 h.compactAfterMigrate
    rw [← hswitch] at hcompact
    have hthreshold := (hthreshold _).1 h.signatureEpochThreshold
    have hmap := (hmap _).1 h.mapSizeMb
    cases s
    simp only at hsource htarget hbatch hcompact hthreshold hmap
    subst hsource htarget hbatch hcompact hthreshold hmap
    rfl
  · rintro rfl
    exact ⟨(hsource _).2 rfl, (htarget _).2 rfl, (hbatch _).2 rfl, (hcompact _).2 (hswitch _),
      (hthreshold _).2 rfl, (hmap _).2 rfl⟩

/-- The option of the settings file, or else its variable, names the file. -/
lemma namesFile (p : Parts args env i) : NamesFile args env i.config := by
  have hconfig : i.config = valueOf readPath (commonOf p.top p.sub configOption) :=
    congrArg Invocation.config p.ofLevels
  have hrule : configOption ∈ commonRules := by simp [commonRules]
  have hread : ∀ {text}, configOption.check text = .ok () → readPath text = .ok text := by
    intro text hcheck
    obtain ⟨path, hpath⟩ := checking_eq_ok hcheck
    rwa [readPath_eq_ok hpath] at hpath
  rw [hconfig]
  by_cases hstands : configOption.Stands args
  · obtain ⟨path, given⟩ := p.exists_givenLast hrule rfl rfl hstands
    obtain ⟨hcommon, hcheck⟩ := p.commonOf_of_givenLast hrule rfl rfl given
    rw [hcommon, valueOf_of_readable (hread hcheck)]
    exact .flag given
  · obtain ⟨hcommon, hcheck⟩ := p.commonOf_of_absent hrule hstands
    rw [hcommon]
    cases hset : configOption.fallback? env with
    | some path =>
        rw [Option.map_some, valueOf_of_readable (hread (hcheck path hset))]
        exact .environment hstands hset
    | none => exact .none hstands hset

end Parts

/-- Whatever command line is understood: each setting has the value that its layers give it, and
there are no settings just if the settings file cannot be read or understood or the settings are not
valid. -/
theorem parse_resolvesSettings (h : parse args env = .ok i) (d : Disk) :
    i.ResolvesSettings args env d := by
  obtain ⟨p⟩ := nonempty_parts h
  have hlayers := p.layeredSettings_iff
  refine ⟨p.namesFile, fun pairs => ?_, fun s => ?_, ?_⟩
  · exact ⟨i.layOver pairs, (hlayers pairs _).2 rfl, fun s hs => (hlayers pairs s).1 hs⟩
  · simp only [hlayers]
    exact Invocation.settings_eq_ok_iff
  · simp only [hlayers]
    exact Invocation.settings_eq_error_iff

/-- A disk with nothing but a text in a file. -/
def diskOf (name text : String) : Disk :=
  { tree := FileTree.put {} [name] (.file (Bytes.ofText text)) }

/-- A file that holds a text is read as that text. -/
lemma readText_of_file {d : Disk} {path text : String} {place : Place}
    (hfind : d.tree.find path = .ok place)
    (hnode : d.tree.node? place = some (.file (Bytes.ofText text))) :
    d.readText path = .ok text := by
  have hplace : (d.tree.find path).mapError FileFault.message = .ok place := by
    rw [hfind]
    rfl
  refine bind_eq_ok.2 ⟨place, hplace, ?_⟩
  simp only [hnode, Bytes.toText?_ofText]
  rfl

/-- A setting of each layer. -/
theorem parse_resolvesSettings_sample :
    let args := ["--config", "archmig.toml", "metadata", "--batch-size=7"]
    let env := [("ARCHMIG_BATCH_SIZE", "9"), ("ARCHMIG_SIGNATURE_EPOCH_THRESHOLD", "200")]
    let i : Invocation :=
      { config := some "archmig.toml"
        overrides := { batchSize := some 7, signatureEpochThreshold := some 200 }
        logFormat := .pretty, command := .metadata false }
    let d := diskOf "archmig.toml" "batch_size = 42\nmap_size_mb = 5"
    parse args env = .ok i ∧ i.ResolvesSettings args env d ∧
      i.settings d = .ok { batchSize := 7, signatureEpochThreshold := 200, mapSizeMb := 5 } := by
  intro args env i d
  have hparse : parse args env = .ok i := by rfl
  have hread : d.readText "archmig.toml" = .ok "batch_size = 42\nmap_size_mb = 5" :=
    readText_of_file rfl rfl
  have hsettings : i.settings d =
      .ok { batchSize := 7, signatureEpochThreshold := 200, mapSizeMb := 5 } := by
    have hfile : Overrides.ofToml? "batch_size = 42\nmap_size_mb = 5" =
        some { batchSize := some 42, mapSizeMb := some 5 } := by
      rfl
    simp only [i, Invocation.settings, hread, hfile]
    rfl
  exact ⟨hparse, parse_resolvesSettings hparse d, hsettings⟩

/-- A variable that says no leaves the switch as the settings file has it. -/
theorem settings_compactStays :
    let args := ["--config", "archmig.toml", "metadata"]
    let env := [("ARCHMIG_COMPACT", "false")]
    let i : Invocation :=
      { config := some "archmig.toml", overrides := {}, logFormat := .pretty
        command := .metadata false }
    let d := diskOf "archmig.toml" "compact_after_migrate = true"
    parse args env = .ok i ∧ ¬compactOption.Stands args ∧
      compactOption.fallback? env = some "false" ∧
      i.settings d = .ok { compactAfterMigrate := true } := by
  intro args env i d
  have hread : d.readText "archmig.toml" = .ok "compact_after_migrate = true" :=
    readText_of_file rfl rfl
  have hstays : i.settings d = .ok { compactAfterMigrate := true } := by
    have hfile : Overrides.ofToml? "compact_after_migrate = true" =
        some { compactAfterMigrate := some true } := by rfl
    simp only [i, Invocation.settings, hread, hfile]
    rfl
  refine ⟨by rfl, ?_, rfl, hstays⟩
  rintro ⟨word, hword, attached, hbegins⟩
  obtain ⟨body, hbody, hname, -⟩ | ⟨c, body, -, -, hletter, -⟩ :=
    hbegins.read (by decide) (by decide)
  · simp only [args, List.mem_cons, List.not_mem_nil, or_false] at hword
    obtain rfl | rfl | rfl := hword
    · cases hbody
      exact absurd hname (by decide)
    · cases hbody
    · cases hbody
  · cases hletter

end EpochSplit.CommandLine
