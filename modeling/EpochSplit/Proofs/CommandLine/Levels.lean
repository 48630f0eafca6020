import EpochSplit.Proofs.CommandLine.Words
import EpochSplit.Proofs.Splits
/-!
# What the levels give

A level gives an option the values of its occurrences there, or else the value of its variable
(`Grammar.gives_of_read`).  A command line that is understood consists of the options of the top
level, the name of a command and the options of that command (`nonempty_parts`); wherever a word on
it begins an option, an occurrence of that option stands (`Parts.exists_occurrence`).
-/

namespace EpochSplit.CommandLine

/-- A value that was checked can be read. -/
lemma checking_eq_ok {α : Type} {read : String → Except UsageFault α} {value : String}
    (h : checking read value = .ok ()) : ∃ a, read value = .ok a := by
  unfold checking at h
  cases hread : read value with
  | error fault =>
      rw [hread] at h
      cases h
  | ok a => exact ⟨a, rfl⟩

/-- The occurrences of an option. -/
def Occurrence.ofRule (occs : List Occurrence) (rule : OptionRule) : List Occurrence :=
  occs.filter (·.rule.name == rule.name)

lemma Level.getElem?_add (given : Level) (rule : OptionRule) (values : List String)
    (name : String) : (given.add rule values)[name]? =
      if rule.name = name then some ⟨(given[name]?.map (·.values)).getD [] ++ values, true⟩
      else given[name]? := by
  rw [Level.add, Std.ExtTreeMap.getElem?_insert]
  by_cases h : rule.name = name
  · subst h
    simp
  · simp [h]

namespace Grammar

variable {g : Grammar} {occs : List Occurrence} {given : Level} {rule : OptionRule} {o : Occurrence}

/-! ### Options that were given -/

lemma ofRule_concat_of_eq (h : o.rule.name = rule.name) :
    Occurrence.ofRule (occs ++ [o]) rule = Occurrence.ofRule occs rule ++ [o] := by
  simp [Occurrence.ofRule, h]

lemma ofRule_concat_of_ne (h : o.rule.name ≠ rule.name) :
    Occurrence.ofRule (occs ++ [o]) rule = Occurrence.ofRule occs rule := by
  simp [Occurrence.ofRule, h]

/-- An option is not given, or it has the values of all its occurrences. -/
lemma Accepts.getElem?_cases (h : g.Accepts occs given) (rule : OptionRule) :
    (Occurrence.ofRule occs rule = [] ∧ given[rule.name]? = none) ∨
      (Occurrence.ofRule occs rule ≠ [] ∧
        given[rule.name]? = some ⟨(Occurrence.ofRule occs rule).flatMap (·.values), true⟩) := by
  induction h with
  | nil => exact .inl ⟨rfl, Std.ExtTreeMap.getElem?_empty⟩
  | @snoc occs given o before known spelled complete once checked ih =>
      rw [Level.getElem?_add]
      by_cases hname : o.rule.name = rule.name
      · rw [if_pos hname, ofRule_concat_of_eq hname]
        refine .inr ⟨by simp, ?_⟩
        obtain ⟨hnone, hgiven⟩ | ⟨-, hgiven⟩ := ih
        · simp [hgiven, hnone]
        · simp [hgiven]
      · rw [if_neg hname, ofRule_concat_of_ne hname]
        exact ih

lemma Accepts.mem {o : Occurrence} (h : g.Accepts occs given) (ho : o ∈ occs) :
    o.rule ∈ g.rules ∧ o.rule.Spelling o.values o.words ∧ o.values.length = o.rule.arity ∧
      ∀ value ∈ o.values, o.rule.check value = .ok () := by
  induction h with
  | nil => cases ho
  | snoc before known spelled complete once checked ih =>
      obtain ho | ho := List.mem_append.1 ho
      · exact ih ho
      · rw [List.mem_singleton.1 ho]
        exact ⟨known, spelled, complete, checked⟩

/-- An option that may not be repeated stands there once at most. -/
lemma Accepts.length_ofRule_le (h : g.Accepts occs given) (hdistinct : Distinct g.rules)
    (hrule : rule ∈ g.rules) (honce : rule.repeatable = false) :
    (Occurrence.ofRule occs rule).length ≤ 1 := by
  induction h with
  | nil => exact Nat.zero_le 1
  | @snoc occs given o before known spelled complete once checked ih =>
      by_cases hname : o.rule.name = rule.name
      · -- when this occurrence was taken, the option had not been given
        have heq := hdistinct.eq_of_not_apart known hrule fun hapart => hapart.1 hname
        obtain ⟨hnone, -⟩ | ⟨-, hgiven⟩ := before.getElem?_cases rule
        · rw [ofRule_concat_of_eq hname, hnone]
          exact le_rfl
        · rw [heq, hgiven] at once
          cases once honce
      · rw [ofRule_concat_of_ne hname]
        exact ih

end Grammar

/-! ### Options that the environment gives -/

namespace Reading

variable {rules : List OptionRule} {rule : OptionRule} {env : Environment} {r r' : Reading}

lemma addVariable_eq_ok (h : r.addVariable env rule = .ok r') :
    r'.given[rule.name]? =
        r.given[rule.name]?.or ((rule.fallback? env).map fun value => ⟨[value], false⟩) ∧
      (r.given[rule.name]? = none →
        ∀ value, rule.fallback? env = some value → rule.check value = .ok ()) ∧
      ∀ name, rule.name ≠ name → r'.given[name]? = r.given[name]? := by
  unfold addVariable at h
  cases hvariable : rule.fallback? env with
  | none =>
      rw [hvariable] at h
      cases h
      simp
  | some value =>
      simp only [hvariable] at h
      by_cases hgiven : r.given.contains rule.name = true
      · rw [if_pos hgiven] at h
        cases h
        rw [Std.ExtTreeMap.contains_eq_isSome_getElem?] at hgiven
        obtain ⟨x, hx⟩ := Option.isSome_iff_exists.1 hgiven
        simp [hx]
      · rw [if_neg hgiven] at h
        obtain ⟨⟨⟩, hcheck, hresult⟩ := bind_eq_ok.1 h
        cases hresult
        rw [Std.ExtTreeMap.contains_eq_isSome_getElem?, Option.not_isSome_iff_eq_none] at hgiven
        refine ⟨?_, fun _ value' hvalue => ?_, fun name hname => ?_⟩
        · rw [Std.ExtTreeMap.getElem?_insert_self, hgiven]
          rfl
        · cases hvalue
          exact hcheck
        · rw [Std.ExtTreeMap.getElem?_insert, if_neg (by simpa using hname)]

/-- The environment gives those options a value that are not given, and no others. -/
lemma addEnvironment_eq_ok (hapart : rules.Pairwise OptionRule.Apart)
    (h : r.addEnvironment rules env = .ok r') :
    (∀ rule ∈ rules, r'.given[rule.name]? =
        r.given[rule.name]?.or ((rule.fallback? env).map fun value => ⟨[value], false⟩)) ∧
      (∀ rule ∈ rules, r.given[rule.name]? = none →
        ∀ value, rule.fallback? env = some value → rule.check value = .ok ()) ∧
      ∀ name, (∀ rule ∈ rules, rule.name ≠ name) → r'.given[name]? = r.given[name]? := by
  induction rules generalizing r with
  | nil =>
      cases h
      simp
  | cons rule rules ih =>
      obtain ⟨r₁, hfirst, hothers⟩ := bind_eq_ok.1 h
      obtain ⟨hnot, hapart⟩ := List.pairwise_cons.1 hapart
      obtain ⟨hvalue, hcheck, hkept⟩ := addVariable_eq_ok hfirst
      obtain ⟨hvalues, hchecks, hrest⟩ := ih hapart hothers
      have hne : ∀ rule' ∈ rules, rule.name ≠ rule'.name := fun rule' hrule' =>
        (hnot rule' hrule').1
      refine ⟨?_, ?_, fun name hname => ?_⟩
      · rintro rule' (_ | ⟨_, hrule'⟩)
        · rw [hrest rule.name fun rule' hrule' => (hne rule' hrule').symm, hvalue]
        · rw [hvalues rule' hrule', hkept rule'.name (hne rule' hrule')]
      · rintro rule' (_ | ⟨_, hrule'⟩)
        · exact hcheck
        · rw [← hkept rule'.name (hne rule' hrule')]
          exact hchecks rule' hrule'
      · rw [hrest name fun rule' hrule' => hname rule' (List.mem_cons_of_mem _ hrule'),
          hkept name (hname rule List.mem_cons_self)]

end Reading

/-! ### Levels -/

/-- What a level gives, if these options stand on it. -/
structure Grammar.Gives (g : Grammar) (env : Environment) (occs : List Occurrence) (l : Level) :
    Prop where
  known : ∀ o ∈ occs, o.rule ∈ g.rules
  spelled : ∀ o ∈ occs, o.rule.Spelling o.values o.words
  complete : ∀ o ∈ occs, o.values.length = o.rule.arity
  checked : ∀ o ∈ occs, ∀ value ∈ o.values, o.rule.check value = .ok ()
  /-- An option that may not be repeated stands there once at most. -/
  once : ∀ rule ∈ g.rules, rule.repeatable = false → (Occurrence.ofRule occs rule).length ≤ 1
  /-- An option that stands there has the values of all its occurrences. -/
  present : ∀ rule ∈ g.rules, Occurrence.ofRule occs rule ≠ [] →
    l[rule.name]? = some ⟨(Occurrence.ofRule occs rule).flatMap (·.values), true⟩
  /-- Any other option has the value of its variable. -/
  absent : ∀ rule ∈ g.rules, Occurrence.ofRule occs rule = [] →
    l[rule.name]? = (rule.fallback? env).map (fun value => ⟨[value], false⟩) ∧
      ∀ value, rule.fallback? env = some value → rule.check value = .ok ()

/-- An option that may not be repeated has the values of its only occurrence. -/
lemma Grammar.Gives.getElem?_of_mem {g : Grammar} {env : Environment} {occs : List Occurrence}
    {l : Level} (h : g.Gives env occs l) {o : Occurrence} (ho : o ∈ occs)
    (honce : o.rule.repeatable = false) : l[o.rule.name]? = some ⟨o.values, true⟩ := by
  have hmem : o ∈ Occurrence.ofRule occs o.rule := List.mem_filter.2 ⟨ho, beq_self_eq_true _⟩
  have hle := h.once o.rule (h.known o ho) honce
  have hlone : Occurrence.ofRule occs o.rule = [o] := by
    obtain ⟨o', hlone⟩ := List.length_eq_one_iff.1 (le_antisymm hle (List.length_pos_of_mem hmem))
    rw [hlone, List.mem_singleton] at hmem
    rw [hlone, hmem]
  rw [h.present o.rule (h.known o ho) (by rw [hlone]; exact List.cons_ne_nil o []), hlone]
  simp

/-- The level that is read from words is given by the options that they spell. -/
theorem Grammar.gives_of_read {g : Grammar} {env : Environment} {args : List String} {r : Reading}
    {next : Option (String × List String)} {l : Level} (hdistinct : Distinct g.rules)
    (hread : g.read args {} = .ok (r, next)) (hfinish : g.finish env r = .ok l) :
    ∃ occs rest, args = occs.flatMap (·.words) ++ rest ∧ g.Ends next rest ∧ g.Gives env occs l := by
  obtain ⟨words, rest, rfl, hafter, hends⟩ := after_of_read (.settled .nil) hread
  obtain ⟨r₁, hsettle, hfinish⟩ := bind_eq_ok.1 hfinish
  obtain ⟨r₂, hadd, hresult⟩ := bind_eq_ok.1 hfinish
  cases hresult
  obtain ⟨occs, haccepts, hwords, -⟩ := hafter.settle hsettle
  rw [List.flatMap_nil, List.nil_append] at hwords
  obtain ⟨hvalues, hchecks, -⟩ := Reading.addEnvironment_eq_ok hdistinct.apart hadd
  refine ⟨occs, rest, by rw [hwords], hends, ?_⟩
  refine ⟨fun o ho => (haccepts.mem ho).1, fun o ho => (haccepts.mem ho).2.1,
    fun o ho => (haccepts.mem ho).2.2.1, fun o ho => (haccepts.mem ho).2.2.2,
    fun rule hrule => haccepts.length_ofRule_le hdistinct hrule, fun rule hrule hsome => ?_,
    fun rule hrule hnone => ?_⟩
  · obtain ⟨hnone, -⟩ | ⟨-, hgiven⟩ := haccepts.getElem?_cases rule
    · exact absurd hnone hsome
    · rw [hvalues rule hrule, hgiven]
      rfl
  · obtain ⟨-, hgiven⟩ | ⟨hsome, -⟩ := haccepts.getElem?_cases rule
    · refine ⟨?_, hchecks rule hrule hgiven⟩
      rw [hvalues rule hrule, hgiven]
      rfl
    · exact absurd hnone hsome

/-! ### Both levels -/

/-- What a command asks for, by the level of the command. -/
inductive Asks (l : Level) : List OptionRule → Command → Prop
  | metadata : Asks l metadataRules (.metadata (flagOf l["json"]?))
  | migrate (checked : checkMigrate l = .ok ()) : Asks l migrateRules (.migrate (.ofLevel l))
  | copyNamespaces (destination : String) (namespaces : List Namespace) :
      Asks l copyRules (.copyNamespaces destination namespaces)

/-- The options of the commands are different, and different from those of both levels. -/
lemma Asks.distinct {l : Level} {rules : List OptionRule} {command : Command}
    (h : Asks l rules command) : Distinct (commandGrammar rules).rules := by
  have hcommon : ∀ rule ∈ commonRules,
      rule.name ≠ "" ∧ '=' ∉ rule.name.toList ∧ rule.letter ≠ some '-' := by
    simp [commonRules, configOption, sourceOption, targetOption, batchSizeOption, compactOption,
      thresholdOption, mapSizeOption, logFormatOption]
  cases h with
  | metadata =>
      refine ⟨by decide, List.forall_mem_append.2 ⟨?_, hcommon⟩⟩
      simp [metadataRules]
  | migrate checked =>
      refine ⟨by decide, List.forall_mem_append.2 ⟨?_, hcommon⟩⟩
      simp [migrateRules, epochOption, rangeOption, allOption]
  | copyNamespaces destination namespaces =>
      refine ⟨by decide, List.forall_mem_append.2 ⟨?_, hcommon⟩⟩
      simp [copyRules]

lemma readLevel_eq_ok {rules : List OptionRule} {args : List String} {env : Environment} {l : Level}
    (hdistinct : Distinct (commandGrammar rules).rules) (h : readLevel rules args env = .ok l) :
    ∃ occs rest, args = occs.flatMap (·.words) ++ rest ∧ (rest = [] ∨ rest = ["--"]) ∧
      (commandGrammar rules).Gives env occs l := by
  obtain ⟨⟨r, next⟩, hread, hfinish⟩ := bind_eq_ok.1 h
  obtain ⟨occs, rest, hargs, hends, hgives⟩ := Grammar.gives_of_read hdistinct hread hfinish
  refine ⟨occs, rest, hargs, ?_, hgives⟩
  cases hends with
  | done => exact .inl rfl
  | marked => exact .inr rfl
  | command known => cases known

lemma readCommand_eq_ok {name : String} {args : List String} {env : Environment} {l : Level}
    {command : Command} (h : readCommand name args env = .ok (l, command)) :
    ∃ rules, readLevel rules args env = .ok l ∧ Asks l rules command := by
  unfold readCommand at h
  split at h
  · obtain ⟨l', hlevel, hresult⟩ := bind_eq_ok.1 h
    cases hresult
    exact ⟨_, hlevel, .metadata⟩
  · obtain ⟨l', hlevel, h⟩ := bind_eq_ok.1 h
    obtain ⟨⟨⟩, hcheck, hresult⟩ := bind_eq_ok.1 h
    cases hresult
    exact ⟨_, hlevel, .migrate hcheck⟩
  · obtain ⟨l', hlevel, h⟩ := bind_eq_ok.1 h
    split at h
    · cases h
    · cases h
      exact ⟨_, hlevel, .copyNamespaces _ _⟩
  · cases h

/-- The parts of a command line that is understood. -/
structure Parts (args : List String) (env : Environment) (i : Invocation) where
  /-- The options in front of the command. -/
  topOccs : List Occurrence
  top : Level
  name : String
  /-- The options that the command has of its own. -/
  rules : List OptionRule
  /-- The options behind the command. -/
  subOccs : List Occurrence
  sub : Level
  rest : List String
  args_eq : args = topOccs.flatMap (·.words) ++ name :: (subOccs.flatMap (·.words) ++ rest)
  name_mem : name ∈ topGrammar.commands
  rest_eq : rest = [] ∨ rest = ["--"]
  top_gives : topGrammar.Gives env topOccs top
  sub_gives : (commandGrammar rules).Gives env subOccs sub
  asks : Asks sub rules i.command
  ofLevels : i = .ofLevels top sub i.command

/-- Whatever is understood has these parts. -/
theorem nonempty_parts {args : List String} {env : Environment} {i : Invocation}
    (h : parse args env = .ok i) : Nonempty (Parts args env i) := by
  obtain ⟨⟨r, next⟩, hread, h⟩ := bind_eq_ok.1 h
  have hdistinct : Distinct topGrammar.rules := by
    have hsub := (Asks.metadata (l := ∅)).distinct
    exact ⟨hsub.apart.sublist (List.sublist_append_right _ _),
      fun rule hrule => hsub.plain rule (List.mem_append_right _ hrule)⟩
  split at h
  · obtain ⟨top, -, h⟩ := bind_eq_ok.1 h
    cases h
  · cases h
  · next r' name rest _ heq =>
      cases heq
      obtain ⟨⟨sub, command⟩, hcommand, h⟩ := bind_eq_ok.1 h
      obtain ⟨top, hfinish, hresult⟩ := bind_eq_ok.1 h
      cases hresult
      obtain ⟨rules, hlevel, hasks⟩ := readCommand_eq_ok hcommand
      obtain ⟨subOccs, rest', rfl, hrest, hsub⟩ := readLevel_eq_ok hasks.distinct hlevel
      obtain ⟨topOccs, rest, hargs, hends, htop⟩ := Grammar.gives_of_read hdistinct hread hfinish
      cases hends with
      | command known =>
          exact ⟨topOccs, top, name, rules, subOccs, sub, rest', hargs, known, hrest, htop, hsub,
            hasks, rfl⟩

/-! ### Where options stand -/

/-- The words of an option behind the word that begins it. -/
def Occurrence.Follows (o : Occurrence) (attached : Option String) (more : List String) : Prop :=
  (attached = none ∧ more = o.values) ∨
    ∃ value, attached = some value ∧ o.values = [value] ∧ more = []

/-- An option consists of the word that begins it and of its values. -/
lemma Occurrence.exists_head {o : Occurrence} (h : o.rule.Spelling o.values o.words) :
    ∃ head attached more, o.rule.Begins head attached ∧ o.words = head :: more ∧
      o.Follows attached more ∧ ∀ word ∈ more, ¬Hyphened word := by
  generalize hvalues : o.values = values at h
  generalize hwords : o.words = words at h
  cases h with
  | @apart head _ begins plain =>
      exact ⟨head, none, values, begins, rfl, .inl ⟨rfl, hvalues.symm⟩, plain⟩
  | @attached head value begins =>
      exact ⟨head, some value, [], begins, rfl, .inr ⟨value, rfl, hvalues, rfl⟩,
        List.forall_mem_nil _⟩

/-- A word that begins an option stands at the head of an occurrence of that option. -/
lemma exists_occurrence {rules : List OptionRule} (hdistinct : Distinct rules)
    {occs : List Occurrence} (hknown : ∀ o ∈ occs, o.rule ∈ rules)
    (hspelled : ∀ o ∈ occs, o.rule.Spelling o.values o.words) {rule : OptionRule}
    (hrule : rule ∈ rules) {word : String} {attached : Option String}
    (hbegins : rule.Begins word attached) {before after : List String}
    (h : occs.flatMap (·.words) = before ++ word :: after) :
    ∃ occs₁ o occs₂ more, occs = occs₁ ++ o :: occs₂ ∧ before = occs₁.flatMap (·.words) ∧
      o.rule = rule ∧ o.Follows attached more ∧ o.words = word :: more ∧
      after = more ++ occs₂.flatMap (·.words) := by
  induction occs generalizing before with
  | nil => simp at h
  | cons o occs ih =>
      obtain ⟨hknown₁, hknown⟩ := List.forall_mem_cons.1 hknown
      obtain ⟨hspelled₁, hspelled⟩ := List.forall_mem_cons.1 hspelled
      obtain ⟨head, attached', more, hhead, hwords, hfollows, hplain⟩ :=
        Occurrence.exists_head hspelled₁
      rw [List.flatMap_cons, hwords, List.cons_append] at h
      cases before with
      | nil =>
          cases h
          obtain ⟨hsame, rfl⟩ := hhead.unique hdistinct hknown₁ hrule hbegins
          exact ⟨[], o, occs, more, rfl, rfl, hsame, hfollows, hwords, rfl⟩
      | cons b before =>
          -- the word is no value of the first option, so it stands behind it
          simp only [List.cons_append, List.cons.injEq] at h
          obtain ⟨rfl, h⟩ := h
          obtain ⟨skipped, rfl, hothers⟩ :=
            split_append_of_not_mem h fun hword => hplain word hword hbegins.hyphened
          obtain ⟨occs₁, o', occs₂, more', rfl, rfl, hrest⟩ := ih hknown hspelled hothers
          refine ⟨o :: occs₁, o', occs₂, more', rfl, ?_, hrest⟩
          rw [List.flatMap_cons, hwords, List.cons_append]

/-- Two hyphens alone begin no option. -/
lemma ne_mark_of_begins {rules : List OptionRule} (hdistinct : Distinct rules) {rule : OptionRule}
    (hrule : rule ∈ rules) {word : String} {attached : Option String}
    (h : rule.Begins word attached) : word ≠ "--" := by
  rintro rfl
  obtain ⟨hne, hname, hletter⟩ := hdistinct.plain rule hrule
  obtain ⟨body, hword, hn, -⟩ | ⟨c, body, hword, hc, -⟩ := h.read hname hletter
  · cases hword
    exact hne hn.symm
  · cases hword
    exact hc rfl

lemma not_hyphened_of_mem_commands {name : String} (h : name ∈ topGrammar.commands) :
    ¬Hyphened name := by
  rintro ⟨c, cs, hname⟩
  simp only [topGrammar, List.mem_cons, List.not_mem_nil, or_false] at h
  obtain rfl | rfl | rfl | rfl := h <;> cases hname

/-- On the whole command line, the occurrence is one in front of the command, and all that is behind
the command follows it, or it is one behind the command. -/
lemma Parts.exists_occurrence {args : List String} {env : Environment} {i : Invocation}
    (p : Parts args env i) {rule : OptionRule} (hrule : rule ∈ (commandGrammar p.rules).rules)
    {word : String} {attached : Option String} (hbegins : rule.Begins word attached)
    {before after : List String} (h : args = before ++ word :: after) :
    ∃ o more others, o.rule = rule ∧ o.Follows attached more ∧ o.words = word :: more ∧
      after = more ++ others ∧
      ((o ∈ p.topOccs ∧ p.subOccs.flatMap (·.words) ⊆ others) ∨ o ∈ p.subOccs) := by
  have hdistinct := p.asks.distinct
  rw [p.args_eq] at h
  obtain ⟨rest, htop, rfl⟩ | ⟨skipped, -, hsub⟩ := split_append h
  · obtain ⟨occs₁, o, occs₂, more, heq, -, hsame, hfollows, hwords, rfl⟩ :=
      CommandLine.exists_occurrence hdistinct
        (fun o ho => List.mem_append_right _ (p.top_gives.known o ho)) p.top_gives.spelled hrule
        hbegins htop
    refine ⟨o, more, _, hsame, hfollows, hwords, List.append_assoc .., .inl ⟨?_, ?_⟩⟩
    · rw [heq]
      exact List.mem_append_right _ List.mem_cons_self
    · intro w hw
      simp [hw]
  · obtain ⟨rfl, hsame⟩ | ⟨skipped, rfl, hsub⟩ := List.cons_eq_append_iff.1 hsub
    · -- the name of the command begins no option
      obtain ⟨rfl, -⟩ := List.cons.inj hsame
      exact absurd hbegins.hyphened (not_hyphened_of_mem_commands p.name_mem)
    · simp only [List.cons_append, List.cons.injEq, true_and] at hsub
      obtain ⟨rest, hhere, rfl⟩ | ⟨skipped, -, hrest⟩ := split_append hsub
      · obtain ⟨occs₁, o, occs₂, more, heq, -, hsame, hfollows, hwords, rfl⟩ :=
          CommandLine.exists_occurrence hdistinct p.sub_gives.known p.sub_gives.spelled hrule
            hbegins hhere
        refine ⟨o, more, _, hsame, hfollows, hwords, List.append_assoc .., .inr ?_⟩
        rw [heq]
        exact List.mem_append_right _ List.mem_cons_self
      · have hmark : word ∈ p.rest := by
          rw [hrest]
          exact List.mem_append_right _ List.mem_cons_self
        obtain hnil | hmarks := p.rest_eq
        · rw [hnil] at hmark
          cases hmark
        · rw [hmarks] at hmark
          exact absurd (List.mem_singleton.1 hmark) (ne_mark_of_begins hdistinct hrule hbegins)

end EpochSplit.CommandLine
