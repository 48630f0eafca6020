import EpochSplit.Proofs.CommandLine.Levels
/-!
# Selected epochs

Which epochs a command line selects can be read off its words: an epoch or a range that it names, or
all epochs if it says so (`parse_selects`).  The numbers of a range that is given again are added to
those before, and numbers other than two select all epochs.
-/

namespace EpochSplit.CommandLine

variable {args : List String} {env : Environment} {i : Invocation}

/-! ### Options of a command of its own -/

/-- A word that begins an option stands there as often as the option, if all its occurrences begin
with that word. -/
lemma count_words {rules : List OptionRule} (hdistinct : Distinct rules) {occs : List Occurrence}
    (hknown : ∀ o ∈ occs, o.rule ∈ rules) (hspelled : ∀ o ∈ occs, o.rule.Spelling o.values o.words)
    {rule : OptionRule} (hrule : rule ∈ rules) {word : String} {attached : Option String}
    (hbegins : rule.Begins word attached)
    (hhead : ∀ o ∈ occs, o.rule = rule → ∃ more, o.words = word :: more) :
    (occs.flatMap (·.words)).count word = (Occurrence.ofRule occs rule).length := by
  induction occs with
  | nil => rfl
  | cons o occs ih =>
      obtain ⟨hknown₁, hknown⟩ := List.forall_mem_cons.1 hknown
      obtain ⟨hspelled₁, hspelled⟩ := List.forall_mem_cons.1 hspelled
      obtain ⟨hhead₁, hhead⟩ := List.forall_mem_cons.1 hhead
      obtain ⟨head, attached', more, hbegins', hwords, -, hplain⟩ :=
        Occurrence.exists_head hspelled₁
      have hmore : more.count word = 0 :=
        List.count_eq_zero_of_not_mem fun hword => hplain word hword hbegins.hyphened
      rw [List.flatMap_cons, List.count_append, ih hknown hspelled hhead, hwords]
      by_cases hname : o.rule.name = rule.name
      · have hsame := hdistinct.eq_of_not_apart hknown₁ hrule fun hapart => hapart.1 hname
        obtain ⟨more', hwords'⟩ := hhead₁ hsame
        obtain ⟨rfl, -⟩ := List.cons.inj (hwords.symm.trans hwords')
        rw [List.count_cons_self, hmore, Occurrence.ofRule, Occurrence.ofRule,
          List.filter_cons_of_pos (by simpa using hname), List.length_cons]
        omega
      · have hne : head ≠ word := by
          rintro rfl
          exact hname (by rw [(hbegins'.unique hdistinct hknown₁ hrule hbegins).1])
        rw [List.count_cons_of_ne hne, hmore, Occurrence.ofRule, Occurrence.ofRule,
          List.filter_cons_of_neg (by simpa using hname), Nat.zero_add]

namespace Parts

variable {rule : OptionRule}

/-- An option of a command of its own can stand behind the command only. -/
lemma not_mem_commonRules (p : Parts args env i) (hrule : rule ∈ p.rules) : rule ∉ commonRules :=
  fun hcommon => ((List.pairwise_append.1 p.asks.distinct.apart).2.2 rule hrule rule hcommon).1 rfl

lemma mem_rules (p : Parts args env i) (hrule : rule ∈ p.rules) :
    rule ∈ (commandGrammar p.rules).rules := List.mem_append_left _ hrule

lemma mem_ofRule (p : Parts args env i) (hrule : rule ∈ p.rules) {o : Occurrence} :
    o ∈ Occurrence.ofRule p.subOccs rule ↔ o ∈ p.subOccs ∧ o.rule = rule := by
  rw [Occurrence.ofRule, List.mem_filter]
  refine and_congr_right fun ho => ⟨fun hname => ?_, fun hsame => by simp [hsame]⟩
  exact p.asks.distinct.eq_of_not_apart (p.sub_gives.known o ho) (p.mem_rules hrule)
    fun hapart => hapart.1 (by simpa using hname)

lemma exists_own (p : Parts args env i) (hrule : rule ∈ p.rules) {word : String}
    {attached : Option String} (hbegins : rule.Begins word attached) {before after : List String}
    (h : args = before ++ word :: after) :
    ∃ o ∈ Occurrence.ofRule p.subOccs rule, ∃ more others,
      o.Follows attached more ∧ o.words = word :: more ∧ after = more ++ others := by
  obtain ⟨o, more, others, rfl, hfollows, hwords, hafter, ⟨htop, -⟩ | hsub⟩ :=
    p.exists_occurrence (p.mem_rules hrule) hbegins h
  · exact absurd (p.top_gives.known o htop) (p.not_mem_commonRules hrule)
  · exact ⟨o, (p.mem_ofRule hrule).2 ⟨hsub, rfl⟩, more, others, hfollows, hwords, hafter⟩

lemma words_infix (p : Parts args env i) {o : Occurrence} (ho : o ∈ p.subOccs) :
    o.words <:+: args := by
  obtain ⟨occs₁, occs₂, heq⟩ := List.append_of_mem ho
  refine ⟨p.topOccs.flatMap (·.words) ++ p.name :: occs₁.flatMap (·.words),
    occs₂.flatMap (·.words) ++ p.rest, ?_⟩
  conv_rhs => rw [p.args_eq, heq]
  simp

/-- An option with a name and no letter is spelled in one of two ways. -/
lemma spelled_by_name (p : Parts args env i) (hrule : rule ∈ p.rules) (hletter : rule.letter = none)
    {o : Occurrence} (ho : o ∈ Occurrence.ofRule p.subOccs rule) :
    o.words = ("--" ++ rule.name) :: o.values ∨
      ∃ value, o.values = [value] ∧ o.words = ["--" ++ rule.name ++ "=" ++ value] := by
  obtain ⟨hmem, rfl⟩ := (p.mem_ofRule hrule).1 ho
  obtain ⟨head, attached, more, hhead, hwords, hfollows, -⟩ :=
    Occurrence.exists_head (p.sub_gives.spelled o hmem)
  cases hhead with
  | name =>
      obtain ⟨-, rfl⟩ | ⟨value, hnone, -⟩ := hfollows
      · exact .inl hwords
      · cases hnone
  | nameWith value =>
      obtain ⟨hsome, -⟩ | ⟨value', hsome, hvalues, rfl⟩ := hfollows
      · cases hsome
      · cases hsome
        exact .inr ⟨value, hvalues, hwords⟩
  | letter h => rw [hletter] at h; cases h
  | letterWith h value => rw [hletter] at h; cases h
  | letterBefore h hd cs => rw [hletter] at h; cases h

/-- The name and the values of an option, one after the other, are an occurrence of it. -/
theorem infix_iff (p : Parts args env i) (hrule : rule ∈ p.rules) (values : List String)
    (hlength : values.length = rule.arity) :
    ("--" ++ rule.name) :: values <:+: args ↔
      ∃ o ∈ Occurrence.ofRule p.subOccs rule, o.values = values ∧
        o.words = ("--" ++ rule.name) :: values := by
  constructor
  · rintro ⟨before, after, h⟩
    have hsplit : args = before ++ ("--" ++ rule.name) :: (values ++ after) := by
      rw [← h]
      simp
    obtain ⟨o, ho, more, others, hfollows, hwords, hafter⟩ := p.exists_own hrule .name hsplit
    obtain ⟨-, rfl⟩ | ⟨value, hsome, -⟩ := hfollows
    · obtain ⟨hmem, rfl⟩ := (p.mem_ofRule hrule).1 ho
      have hsame := List.append_inj_left hafter
        (hlength.trans (p.sub_gives.complete o hmem).symm)
      exact ⟨o, ho, hsame.symm, by rw [hwords, hsame]⟩
    · cases hsome
  · rintro ⟨o, ho, -, hwords⟩
    rw [← hwords]
    exact p.words_infix ((p.mem_ofRule hrule).1 ho).1

/-- So is the name with a value attached to it. -/
theorem attached_mem_iff (p : Parts args env i) (hrule : rule ∈ p.rules) {value : String} :
    "--" ++ rule.name ++ "=" ++ value ∈ args ↔
      ∃ o ∈ Occurrence.ofRule p.subOccs rule, o.values = [value] ∧
        o.words = ["--" ++ rule.name ++ "=" ++ value] := by
  constructor
  · intro h
    obtain ⟨before, after, h⟩ := List.append_of_mem h
    obtain ⟨o, ho, more, others, hfollows, hwords, -⟩ := p.exists_own hrule (.nameWith value) h
    obtain ⟨hnone, -⟩ | ⟨value', hsome, hvalues, rfl⟩ := hfollows
    · cases hnone
    · cases hsome
      exact ⟨o, ho, hvalues, hwords⟩
  · rintro ⟨o, ho, -, hwords⟩
    refine (p.words_infix ((p.mem_ofRule hrule).1 ho).1).subset ?_
    rw [hwords]
    exact List.mem_singleton_self _

/-- The name of an option with other than a single value stands there as often as the option. -/
theorem count_name (p : Parts args env i) (hrule : rule ∈ p.rules) (hletter : rule.letter = none)
    (harity : rule.arity ≠ 1) :
    args.count ("--" ++ rule.name) = (Occurrence.ofRule p.subOccs rule).length := by
  have hdistinct := p.asks.distinct
  have hbegins : rule.Begins ("--" ++ rule.name) none := .name
  have htop : "--" ++ rule.name ∉ p.topOccs.flatMap (·.words) := by
    intro h
    obtain ⟨before, after, h⟩ := List.append_of_mem h
    obtain ⟨occs₁, o, occs₂, more, heq, -, rfl, -⟩ := CommandLine.exists_occurrence hdistinct
      (fun o ho => List.mem_append_right _ (p.top_gives.known o ho)) p.top_gives.spelled
      (p.mem_rules hrule) hbegins h
    refine p.not_mem_commonRules hrule (p.top_gives.known o ?_)
    rw [heq]
    exact List.mem_append_right _ List.mem_cons_self
  have hname : p.name ≠ "--" ++ rule.name := fun h =>
    not_hyphened_of_mem_commands p.name_mem (h ▸ hbegins.hyphened)
  have hrest : "--" ++ rule.name ∉ p.rest := by
    obtain hnil | hmark := p.rest_eq
    · simp [hnil]
    · rw [hmark, List.mem_singleton]
      exact ne_mark_of_begins hdistinct (p.mem_rules hrule) hbegins
  conv_lhs => rw [p.args_eq]
  rw [List.count_append, List.count_eq_zero_of_not_mem htop, List.count_cons_of_ne hname,
    List.count_append, List.count_eq_zero_of_not_mem hrest, Nat.zero_add, Nat.add_zero,
    count_words hdistinct p.sub_gives.known p.sub_gives.spelled (p.mem_rules hrule) hbegins]
  rintro o ho rfl
  obtain hwords | ⟨value, hvalues, -⟩ :=
    p.spelled_by_name hrule hletter ((p.mem_ofRule hrule).2 ⟨ho, rfl⟩)
  · exact ⟨_, hwords⟩
  · refine absurd ?_ harity
    rw [← p.sub_gives.complete o ho, hvalues]
    rfl

end Parts

/-! ### The selection -/

/-- The command line names an epoch. -/
def NamesEpoch (args : List String) (epoch : UInt32) : Prop :=
  ∃ text, readWord text = .ok epoch ∧
    (["--epoch", text] <:+: args ∨ "--epoch=" ++ text ∈ args)

/-- The command line names a range of epochs. -/
def NamesRange (args : List String) (start stop : UInt32) : Prop :=
  ∃ a b, readWord a = .ok start ∧ readWord b = .ok stop ∧ ["--range", a, b] <:+: args

/-- The epochs that are selected are those that the command line asks for; but a range that is given
again selects all epochs. -/
structure MigrateArguments.Selects (a : MigrateArguments) (args : List String) : Prop where
  epoch : ∀ n, a.selection = .epoch n ↔ NamesEpoch args n
  range : ∀ start stop, a.selection = .range start stop ↔
    NamesRange args start stop ∧ args.count "--range" = 1
  all : a.selection = .all ↔ "--all" ∈ args ∨ 2 ≤ args.count "--range"

section Migrate

variable {a : MigrateArguments} (p : Parts args env i) (hrules : p.rules = migrateRules)

include hrules

lemma Parts.epochOption_mem : epochOption ∈ p.rules := by rw [hrules]; simp [migrateRules]

lemma Parts.rangeOption_mem : rangeOption ∈ p.rules := by rw [hrules]; simp [migrateRules]

lemma Parts.allOption_mem : allOption ∈ p.rules := by rw [hrules]; simp [migrateRules]

lemma Parts.namesEpoch_iff (n : UInt32) : NamesEpoch args n ↔
    ∃ o ∈ Occurrence.ofRule p.subOccs epochOption, ∃ text, o.values = [text] ∧
      readWord text = .ok n := by
  have hrule := p.epochOption_mem hrules
  constructor
  · rintro ⟨text, hread, hinfix | hmem⟩
    · obtain ⟨o, ho, hvalues, -⟩ := (p.infix_iff hrule [text] rfl).1 hinfix
      exact ⟨o, ho, text, hvalues, hread⟩
    · obtain ⟨o, ho, hvalues, -⟩ := (p.attached_mem_iff hrule).1 hmem
      exact ⟨o, ho, text, hvalues, hread⟩
  · rintro ⟨o, ho, text, hvalues, hread⟩
    refine ⟨text, hread, ?_⟩
    obtain hwords | ⟨value, hvalues', hwords⟩ := p.spelled_by_name hrule rfl ho
    · rw [hvalues] at hwords
      exact .inl ((p.infix_iff hrule [text] rfl).2 ⟨o, ho, hvalues, hwords⟩)
    · rw [hvalues] at hvalues'
      cases hvalues'
      exact .inr ((p.attached_mem_iff hrule).2 ⟨o, ho, hvalues, hwords⟩)

lemma Parts.namesRange_iff (start stop : UInt32) : NamesRange args start stop ↔
    ∃ o ∈ Occurrence.ofRule p.subOccs rangeOption, ∃ a b, o.values = [a, b] ∧
      readWord a = .ok start ∧ readWord b = .ok stop := by
  have hrule := p.rangeOption_mem hrules
  constructor
  · rintro ⟨a, b, ha, hb, hinfix⟩
    obtain ⟨o, ho, hvalues, -⟩ := (p.infix_iff hrule [a, b] rfl).1 hinfix
    exact ⟨o, ho, a, b, hvalues, ha, hb⟩
  · rintro ⟨o, ho, a, b, hvalues, ha, hb⟩
    refine ⟨a, b, ha, hb, (p.infix_iff hrule [a, b] rfl).2 ⟨o, ho, hvalues, ?_⟩⟩
    obtain hwords | ⟨value, hvalues', -⟩ := p.spelled_by_name hrule rfl ho
    · rw [hvalues] at hwords
      exact hwords
    · rw [hvalues] at hvalues'
      cases hvalues'

lemma Parts.all_mem_iff : "--all" ∈ args ↔ Occurrence.ofRule p.subOccs allOption ≠ [] := by
  have hcount := p.count_name (p.allOption_mem hrules) rfl (by decide)
  have hname : "--" ++ allOption.name = "--all" := by decide
  rw [← List.count_pos_iff, ← hname, hcount, List.length_pos_iff]

end Migrate

/-- An option without a variable has the values of its occurrences, or none. -/
lemma Parts.getElem?_cases (p : Parts args env i) {rule : OptionRule} (hrule : rule ∈ p.rules)
    (hvariable : rule.environment = none) :
    (Occurrence.ofRule p.subOccs rule = [] ∧ p.sub[rule.name]? = none) ∨
      (Occurrence.ofRule p.subOccs rule ≠ [] ∧ p.sub[rule.name]? =
        some ⟨(Occurrence.ofRule p.subOccs rule).flatMap (·.values), true⟩) := by
  by_cases hnone : Occurrence.ofRule p.subOccs rule = []
  · refine .inl ⟨hnone, ?_⟩
    rw [(p.sub_gives.absent rule (p.mem_rules hrule) hnone).1, OptionRule.fallback?, hvariable]
    rfl
  · exact .inr ⟨hnone, p.sub_gives.present rule (p.mem_rules hrule) hnone⟩

/-- Just one of the three options is given. -/
lemma checkMigrate_eq_ok {l : Level} (h : checkMigrate l = .ok ()) :
    (l[epochOption.name]?.isSome ∧ l[rangeOption.name]? = none ∧ l[allOption.name]? = none) ∨
      (l[epochOption.name]? = none ∧ l[rangeOption.name]?.isSome ∧ l[allOption.name]? = none) ∨
      (l[epochOption.name]? = none ∧ l[rangeOption.name]? = none ∧ l[allOption.name]?.isSome) := by
  simp only [checkMigrate, selectionOptions, List.filter,
    Std.ExtTreeMap.contains_eq_isSome_getElem?] at h
  cases hepoch : l[epochOption.name]? <;> cases hrange : l[rangeOption.name]? <;>
    cases hall : l[allOption.name]? <;>
    simp [hepoch, hrange, hall] at h ⊢

/-- The values of ranges come in pairs of numbers. -/
lemma length_values_ofRange {occs : List Occurrence}
    (hchecked : ∀ o ∈ occs, o.values.length = 2 ∧
      ∀ value ∈ o.values, checking readWord value = .ok ()) :
    ((occs.flatMap (·.values)).filterMap fun v => (readWord v).toOption).length =
      2 * occs.length := by
  induction occs with
  | nil => rfl
  | cons o occs ih =>
      obtain ⟨⟨hlength, hreadable⟩, hothers⟩ := List.forall_mem_cons.1 hchecked
      obtain ⟨a, b, hvalues⟩ := List.length_eq_two.1 hlength
      rw [hvalues] at hreadable
      obtain ⟨start, ha⟩ := checking_eq_ok (hreadable a (by simp))
      obtain ⟨stop, hb⟩ := checking_eq_ok (hreadable b (by simp))
      have ha' : (readWord a).toOption = some start := by rw [ha]; rfl
      have hb' : (readWord b).toOption = some stop := by rw [hb]; rfl
      rw [List.flatMap_cons, List.filterMap_append, List.length_append, ih hothers, hvalues,
        List.length_cons]
      simp only [List.filterMap_cons, ha', hb', List.filterMap_nil, List.length_cons,
        List.length_nil]
      omega

/-- The only occurrence of an option with one number gives that number. -/
lemma exists_word {occs : List Occurrence} (hsome : occs ≠ []) (honce : occs.length ≤ 1)
    (hchecked : ∀ o ∈ occs, o.values.length = 1 ∧
      ∀ value ∈ o.values, checking readWord value = .ok ()) :
    ∃ o text n, occs = [o] ∧ o.values = [text] ∧ readWord text = .ok n := by
  obtain ⟨o, rfl⟩ := List.length_eq_one_iff.1 (le_antisymm honce (List.length_pos_iff.2 hsome))
  obtain ⟨hlength, hreadable⟩ := hchecked o (List.mem_singleton_self o)
  obtain ⟨text, hvalues⟩ := List.length_eq_one_iff.1 hlength
  rw [hvalues] at hreadable
  obtain ⟨n, hread⟩ := checking_eq_ok (hreadable text (List.mem_singleton_self text))
  exact ⟨o, text, n, rfl, hvalues, hread⟩

/-- The ranges that are given are one range, or several. -/
lemma exists_range_or {occs : List Occurrence} (hsome : occs ≠ [])
    (hchecked : ∀ o ∈ occs, o.values.length = 2 ∧
      ∀ value ∈ o.values, checking readWord value = .ok ()) :
    (∃ o a b start stop, occs = [o] ∧ o.values = [a, b] ∧ readWord a = .ok start ∧
      readWord b = .ok stop) ∨ 2 ≤ occs.length := by
  by_cases hlone : occs.length = 1
  · obtain ⟨o, rfl⟩ := List.length_eq_one_iff.1 hlone
    obtain ⟨htwo, hreadable⟩ := hchecked o (List.mem_singleton_self o)
    obtain ⟨a, b, hvalues⟩ := List.length_eq_two.1 htwo
    rw [hvalues] at hreadable
    obtain ⟨start, ha⟩ := checking_eq_ok (hreadable a List.mem_cons_self)
    obtain ⟨stop, hb⟩ := checking_eq_ok (hreadable b (List.mem_cons_of_mem _ List.mem_cons_self))
    exact .inl ⟨o, a, b, start, stop, rfl, hvalues, ha, hb⟩
  · have hpos := List.length_pos_iff.2 hsome
    exact .inr (by omega)

/-- The selection that the occurrences of the three options make. -/
inductive Chooses : List Occurrence → List Occurrence → List Occurrence → EpochSelection → Prop
  | epoch {o : Occurrence} {text : String} {n : UInt32} (values : o.values = [text])
      (readable : readWord text = .ok n) : Chooses [o] [] [] (.epoch n)
  | range {o : Occurrence} {a b : String} {start stop : UInt32} (values : o.values = [a, b])
      (first : readWord a = .ok start) (last : readWord b = .ok stop) :
      Chooses [] [o] [] (.range start stop)
  | ranges {ranges : List Occurrence} (several : 2 ≤ ranges.length) : Chooses [] ranges [] .all
  | all {flags : List Occurrence} (given : flags ≠ []) : Chooses [] [] flags .all

namespace Chooses

variable {epochs ranges flags : List Occurrence} {selection : EpochSelection}

lemma epoch_iff (h : Chooses epochs ranges flags selection) (n : UInt32) :
    selection = .epoch n ↔ ∃ o ∈ epochs, ∃ text, o.values = [text] ∧ readWord text = .ok n := by
  cases h with
  | epoch values readable => simp [values, readable]
  | range values first last => simp
  | ranges several => simp
  | all given => simp

lemma range_iff (h : Chooses epochs ranges flags selection) (start stop : UInt32) :
    selection = .range start stop ↔
      (∃ o ∈ ranges, ∃ a b, o.values = [a, b] ∧ readWord a = .ok start ∧ readWord b = .ok stop) ∧
        ranges.length = 1 := by
  cases h with
  | epoch values readable => simp
  | range values first last => simp [values, first, last]
  | ranges several =>
      have hne : ranges.length ≠ 1 := by omega
      simp [hne]
  | all given => simp

lemma all_iff (h : Chooses epochs ranges flags selection) :
    selection = .all ↔ flags ≠ [] ∨ 2 ≤ ranges.length := by
  cases h with
  | epoch values readable => simp
  | range values first last => simp
  | ranges several => simp [several]
  | all given => simp [given]

end Chooses

lemma Parts.eq_nil_of_none (p : Parts args env i) {rule : OptionRule} (hrule : rule ∈ p.rules)
    (hvariable : rule.environment = none) (h : p.sub[rule.name]? = none) :
    Occurrence.ofRule p.subOccs rule = [] := by
  obtain ⟨hnone, -⟩ | ⟨-, hgiven⟩ := p.getElem?_cases hrule hvariable
  · exact hnone
  · rw [h] at hgiven
    cases hgiven

lemma Parts.given_of_isSome (p : Parts args env i) {rule : OptionRule} (hrule : rule ∈ p.rules)
    (hvariable : rule.environment = none) (h : p.sub[rule.name]?.isSome) :
    Occurrence.ofRule p.subOccs rule ≠ [] ∧ p.sub[rule.name]? =
      some ⟨(Occurrence.ofRule p.subOccs rule).flatMap (·.values), true⟩ := by
  obtain ⟨-, hnone⟩ | hgiven := p.getElem?_cases hrule hvariable
  · rw [hnone] at h
    cases h
  · exact hgiven

lemma Parts.ofRule_checked (p : Parts args env i) {rule : OptionRule} (hrule : rule ∈ p.rules) :
    ∀ o ∈ Occurrence.ofRule p.subOccs rule, o.values.length = rule.arity ∧
      ∀ value ∈ o.values, rule.check value = .ok () := by
  intro o ho
  obtain ⟨hmem, rfl⟩ := (p.mem_ofRule hrule).1 ho
  exact ⟨p.sub_gives.complete o hmem, p.sub_gives.checked o hmem⟩

/-- Numbers that are not the two of a single range select all epochs. -/
lemma MigrateArguments.selection_of_length {a : MigrateArguments} {numbers : List UInt32}
    (hepoch : a.epoch = none) (hrange : a.range = some numbers) (hlength : numbers.length ≠ 2) :
    a.selection = .all := by
  rcases numbers with _ | ⟨first, _ | ⟨last, _ | ⟨another, others⟩⟩⟩
  · rw [selection, hepoch, hrange]
  · rw [selection, hepoch, hrange]
  · exact absurd rfl hlength
  · rw [selection, hepoch, hrange]

/-- The selection follows from the occurrences of the three options. -/
theorem Parts.chooses (p : Parts args env i) (hrules : p.rules = migrateRules)
    (hcheck : checkMigrate p.sub = .ok ()) :
    Chooses (Occurrence.ofRule p.subOccs epochOption) (Occurrence.ofRule p.subOccs rangeOption)
      (Occurrence.ofRule p.subOccs allOption) (MigrateArguments.ofLevel p.sub).selection := by
  have hepochs := p.epochOption_mem hrules
  have hranges := p.rangeOption_mem hrules
  have halls := p.allOption_mem hrules
  obtain ⟨hepoch, hrange, hall⟩ | ⟨hepoch, hrange, hall⟩ | ⟨hepoch, hrange, hall⟩ :=
    checkMigrate_eq_ok hcheck
  · rw [p.eq_nil_of_none hranges rfl hrange, p.eq_nil_of_none halls rfl hall]
    obtain ⟨hsome, hgiven⟩ := p.given_of_isSome hepochs rfl hepoch
    obtain ⟨o, text, n, hlone, hvalues, hread⟩ := exists_word hsome
      (p.sub_gives.once epochOption (p.mem_rules hepochs) rfl) (p.ofRule_checked hepochs)
    rw [hlone] at hgiven ⊢
    have hselection : (MigrateArguments.ofLevel p.sub).selection = .epoch n := by
      simp [MigrateArguments.selection, MigrateArguments.ofLevel, hgiven, hvalues, valueOf, hread,
        Except.toOption]
    rw [hselection]
    exact .epoch hvalues hread
  · rw [p.eq_nil_of_none hepochs rfl hepoch, p.eq_nil_of_none halls rfl hall]
    obtain ⟨hsome, hgiven⟩ := p.given_of_isSome hranges rfl hrange
    have hchecked := p.ofRule_checked hranges
    obtain ⟨o, a, b, start, stop, hlone, hvalues, ha, hb⟩ | hseveral :=
      exists_range_or hsome hchecked
    · rw [hlone] at hgiven ⊢
      have hselection : (MigrateArguments.ofLevel p.sub).selection = .range start stop := by
        simp [MigrateArguments.selection, MigrateArguments.ofLevel, hepoch, hgiven, hvalues,
          valueOf, ha, hb, Except.toOption]
      rw [hselection]
      exact .range hvalues ha hb
    · -- each range adds two numbers, so several ranges are never the two of one
      have hlength := length_values_ofRange hchecked
      have hselection : (MigrateArguments.ofLevel p.sub).selection = .all := by
        refine MigrateArguments.selection_of_length ?_ ?_ (ne_of_eq_of_ne hlength (by omega))
        · simp [MigrateArguments.ofLevel, hepoch, valueOf]
        · simp [MigrateArguments.ofLevel, hgiven]
      rw [hselection]
      exact .ranges hseveral
  · rw [p.eq_nil_of_none hepochs rfl hepoch, p.eq_nil_of_none hranges rfl hrange]
    have hselection : (MigrateArguments.ofLevel p.sub).selection = .all := by
      simp [MigrateArguments.selection, MigrateArguments.ofLevel, hepoch, hrange, valueOf]
    rw [hselection]
    exact .all (p.given_of_isSome halls rfl hall).1

lemma Asks.migrate_cases {l : Level} {rules : List OptionRule} {a : MigrateArguments}
    (h : Asks l rules (.migrate a)) :
    rules = migrateRules ∧ checkMigrate l = .ok () ∧ a = .ofLevel l := by
  cases h with
  | migrate checked => exact ⟨rfl, checked, rfl⟩

/-- Whatever command line is understood as one to move epochs: the selection is an epoch or a range
if the command line names it, and all epochs if it says so; but a range that is given again selects
all epochs as well. -/
theorem parse_selects {a : MigrateArguments} (h : parse args env = .ok i)
    (hmigrate : i.command = .migrate a) : a.Selects args := by
  obtain ⟨p⟩ := nonempty_parts h
  obtain ⟨hrules, hcheck, rfl⟩ : p.rules = migrateRules ∧ checkMigrate p.sub = .ok () ∧
      a = .ofLevel p.sub := by
    have hasks := p.asks
    rw [hmigrate] at hasks
    exact hasks.migrate_cases
  have hchooses := p.chooses hrules hcheck
  have hcount : args.count "--range" = (Occurrence.ofRule p.subOccs rangeOption).length :=
    p.count_name (p.rangeOption_mem hrules) rfl (by decide)
  refine ⟨fun n => ?_, fun start stop => ?_, ?_⟩
  · rw [p.namesEpoch_iff hrules, hchooses.epoch_iff]
  · rw [p.namesRange_iff hrules, hcount, hchooses.range_iff]
  · rw [p.all_mem_iff hrules, hcount, hchooses.all_iff]

/-- The names of commands are values where a value is expected, and options stand in any order. -/
theorem parse_selects_range :
    let args := ["--source", "migrate", "migrate", "--json", "--range", "1", "+2"]
    let a : MigrateArguments := { range := some [1, 2], json := true }
    parse args [] = .ok { config := none, overrides := { sourcePath := some "migrate" }
                          logFormat := .pretty, command := .migrate a } ∧
      a.Selects args ∧ a.selection = .range 1 2 ∧ NamesRange args 1 2 := by
  intro args a
  have hparse : parse args [] = .ok
      { config := none, overrides := { sourcePath := some "migrate" }, logFormat := .pretty
        command := .migrate a } := by rfl
  have hselects := parse_selects hparse rfl
  exact ⟨hparse, hselects, rfl, ((hselects.range 1 2).1 rfl).1⟩

/-- A range that is given twice selects all epochs, although the command line does not ask for
all. -/
theorem parse_rangeTwice :
    let args := ["migrate", "--range", "1", "2", "--range", "1", "2"]
    let a : MigrateArguments := { range := some [1, 2, 1, 2] }
    parse args [] = .ok { config := none, overrides := {}, logFormat := .pretty
                          command := .migrate a } ∧
      a.selection = .all ∧ "--all" ∉ args ∧ NamesRange args 1 2 := by
  refine ⟨by rfl, rfl, by decide, "1", "2", rfl, rfl, ?_⟩
  exact ⟨["migrate"], ["--range", "1", "2"], rfl⟩

end EpochSplit.CommandLine
