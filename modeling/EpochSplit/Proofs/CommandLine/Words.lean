import EpochSplit.CommandLine.Invocation
import Mathlib.Data.List.Pairwise
import Mathlib.Data.List.TakeWhile
/-!
# The words of a command line

What the reader takes is a sequence of options, each spelled in one of its forms (`after_of_read`):
the values of an option follow the word that begins it, or a single value is attached to that word.
A word begins one option at most, in one way (`Begins.unique`), and is never a value.
-/

namespace EpochSplit.CommandLine

/-! ### What the reader takes -/

/-- A sequence succeeds if its first part does, and its second part with the result of the first. -/
lemma bind_eq_ok {ε α β : Type} {first : Except ε α} {second : α → Except ε β} {b : β} :
    first >>= second = .ok b ↔ ∃ a, first = .ok a ∧ second a = .ok b := by
  cases first <;> simp [bind, Except.bind]

lemma forM_eq_ok {α ε : Type} {f : α → Except ε Unit} {as : List α} (h : as.forM f = .ok ()) :
    ∀ a ∈ as, f a = .ok () := by
  induction as with
  | nil => exact List.forall_mem_nil _
  | cons a as ih =>
      obtain ⟨⟨⟩, hfirst, hothers⟩ := bind_eq_ok.1 h
      exact List.forall_mem_cons.2 ⟨hfirst, ih hothers⟩

/-- Adds the values of an option to what was given on a level. -/
def Level.add (given : Level) (rule : OptionRule) (values : List String) : Level :=
  given.insert rule.name ⟨(given[rule.name]?.map (·.values)).getD [] ++ values, true⟩

namespace Reading

variable {r r' : Reading} {rule : OptionRule} {values : List String}

lemma accept_eq_ok (h : r.accept rule values = .ok r') :
    values.length = rule.arity ∧ (rule.repeatable = false → r.given[rule.name]? = none) ∧
      (∀ v ∈ values, rule.check v = .ok ()) ∧ r' = { r with given := r.given.add rule values } := by
  unfold accept at h
  by_cases hlength : values.length = rule.arity
  · simp only [hlength, ne_eq, not_true_eq_false, if_false] at h
    by_cases hagain : (r.given[rule.name]?.map (·.values)).isSome ∧ !rule.repeatable
    · rw [if_pos hagain] at h
      cases h
    · rw [if_neg hagain] at h
      obtain ⟨⟨⟩, hcheck, hresult⟩ := bind_eq_ok.1 h
      cases hresult
      refine ⟨hlength, fun hrepeat => ?_, forM_eq_ok hcheck, rfl⟩
      simpa [hrepeat] using hagain
  · simp only [ne_eq, hlength, not_false_eq_true, if_true] at h
    cases h

lemma settle_eq_ok (h : r.settle = .ok r') :
    (r.pending = none ∧ r' = r) ∨
      ∃ rule values, r.pending = some (rule, values) ∧
        { r with pending := none }.accept rule values = .ok r' := by
  unfold settle at h
  cases hpending : r.pending with
  | none =>
      simp only [hpending] at h
      cases h
      exact .inl ⟨rfl, rfl⟩
  | some pending =>
      simp only [hpending] at h
      exact .inr ⟨pending.1, pending.2, rfl, h⟩

lemma begin_eq_ok {attached : Option String} (h : r.begin rule attached = .ok r') :
    ∃ r₁, r.settle = .ok r₁ ∧
      ((∃ value, attached = some value ∧ r₁.accept rule [value] = .ok r') ∨
        (attached = none ∧ rule.arity = 0 ∧ r₁.accept rule [] = .ok r') ∨
        (attached = none ∧ rule.arity ≠ 0 ∧ r' = { r₁ with pending := some (rule, []) })) := by
  obtain ⟨r₁, hsettle, h⟩ := bind_eq_ok.1 h
  refine ⟨r₁, hsettle, ?_⟩
  cases attached with
  | some value => exact .inl ⟨value, rfl, h⟩
  | none =>
      by_cases harity : rule.arity = 0
      · simp only [harity, if_true] at h
        exact .inr (.inl ⟨rfl, harity, h⟩)
      · simp only [harity, if_false] at h
        cases h
        exact .inr (.inr ⟨rfl, harity, rfl⟩)

end Reading

/-! ### Words -/

/-- A word that can be no value: something follows a hyphen. -/
def Hyphened (word : String) : Prop := ∃ c cs, word.toList = '-' :: c :: cs

/-- A word begins an option by its name or its letter; a value may be attached to it. -/
inductive OptionRule.Begins (rule : OptionRule) : String → Option String → Prop
  | name : Begins rule ("--" ++ rule.name) none
  | nameWith (value : String) : Begins rule ("--" ++ rule.name ++ "=" ++ value) (some value)
  | letter {c : Char} (h : rule.letter = some c) : Begins rule (String.ofList ['-', c]) none
  | letterWith {c : Char} (h : rule.letter = some c) (value : String) :
      Begins rule (String.ofList ['-', c, '='] ++ value) (some value)
  | letterBefore {c d : Char} (h : rule.letter = some c) (hd : d ≠ '=') (cs : List Char) :
      Begins rule (String.ofList ('-' :: c :: d :: cs)) (some (String.ofList (d :: cs)))

/-- Rules with different names and different letters, if they have letters. -/
def OptionRule.Apart (rule rule' : OptionRule) : Prop :=
  rule.name ≠ rule'.name ∧ (rule.letter = none ∨ rule.letter ≠ rule'.letter)

instance : DecidableRel OptionRule.Apart :=
  fun rule rule' => inferInstanceAs (Decidable (rule.name ≠ rule'.name ∧ (_ ∨ _)))

instance : Std.Symm OptionRule.Apart where
  symm := by
    rintro rule rule' ⟨hname, hletter⟩
    refine ⟨hname.symm, ?_⟩
    by_cases hnone : rule'.letter = none
    · exact .inl hnone
    · refine .inr fun hsame => ?_
      obtain hnone' | hne := hletter
      · exact hnone (hsame.trans hnone')
      · exact hne hsame.symm

/-- Rules that no word confuses. -/
structure Distinct (rules : List OptionRule) : Prop where
  apart : rules.Pairwise OptionRule.Apart
  plain : ∀ rule ∈ rules,
    rule.name ≠ "" ∧ '=' ∉ rule.name.toList ∧ rule.letter ≠ some '-'

lemma Distinct.eq_of_not_apart {rules : List OptionRule} (h : Distinct rules)
    {rule rule' : OptionRule} (hrule : rule ∈ rules) (hrule' : rule' ∈ rules)
    (hsame : ¬rule.Apart rule') : rule = rule' := by
  by_contra hne
  exact hsame (h.apart.forall hrule hrule' hne)

namespace OptionRule

variable {rule rule' : OptionRule} {word : String} {attached attached' : Option String}

lemma Begins.hyphened (h : rule.Begins word attached) : Hyphened word := by
  cases h with
  | name => exact ⟨'-', rule.name.toList, by simp⟩
  | nameWith value => exact ⟨'-', rule.name.toList ++ '=' :: value.toList, by simp⟩
  | @letter c h => exact ⟨c, [], by simp⟩
  | @letterWith c h value => exact ⟨c, '=' :: value.toList, by simp⟩
  | @letterBefore c d h hd cs => exact ⟨c, d :: cs, by simp⟩

lemma forall_ne_equals {name : List Char} (h : '=' ∉ name) : ∀ c ∈ name, (c != '=') = true := by
  intro c hc
  rw [bne_iff_ne]
  rintro rfl
  exact h hc

/-- The name or the letter can be read off a word that begins an option, and so can the value. -/
lemma Begins.read (h : rule.Begins word attached) (hname : '=' ∉ rule.name.toList)
    (hletter : rule.letter ≠ some '-') :
    (∃ body, word.toList = '-' :: '-' :: body ∧
        String.ofList (body.takeWhile (· != '=')) = rule.name ∧ valueAfter body = attached) ∨
      ∃ c body, word.toList = '-' :: c :: body ∧ c ≠ '-' ∧ rule.letter = some c ∧
        valueAfterLetter body = attached := by
  cases h with
  | name =>
      have hall := forall_ne_equals hname
      refine .inl ⟨rule.name.toList, by simp, ?_, ?_⟩
      · rw [List.takeWhile_eq_self_iff.2 hall, String.ofList_toList]
      · rw [valueAfter, List.dropWhile_eq_nil_iff.2 hall]
  | nameWith value =>
      have hall := forall_ne_equals hname
      refine .inl ⟨rule.name.toList ++ '=' :: value.toList, by simp, ?_, ?_⟩
      · rw [List.takeWhile_append_of_pos hall]
        simp
      · rw [valueAfter, List.dropWhile_append_of_pos hall]
        simp
  | @letter c h =>
      refine .inr ⟨c, [], by simp, ?_, h, rfl⟩
      rintro rfl
      exact hletter h
  | @letterWith c h value =>
      refine .inr ⟨c, '=' :: value.toList, by simp, ?_, h, ?_⟩
      · rintro rfl
        exact hletter h
      · rw [valueAfterLetter, String.ofList_toList]
  | @letterBefore c d h hd cs =>
      refine .inr ⟨c, d :: cs, by simp, ?_, h, ?_⟩
      · rintro rfl
        exact hletter h
      · unfold valueAfterLetter
        split
        · next heq => cases heq
        · next heq =>
            cases heq
            exact absurd rfl hd
        · rfl

/-- A word with two hyphens begins the option of its name. -/
lemma begins_of_name {body : List Char} (hword : word.toList = '-' :: '-' :: body)
    (hname : rule.name = String.ofList (body.takeWhile (· != '='))) :
    rule.Begins word (valueAfter body) := by
  have hsplit := List.takeWhile_append_dropWhile (p := (· != '=')) (l := body)
  have htake : body.takeWhile (· != '=') = rule.name.toList := by rw [hname, String.toList_ofList]
  rw [htake] at hsplit
  rw [valueAfter]
  cases hdrop : body.dropWhile (· != '=') with
  | nil =>
      rw [hdrop, List.append_nil] at hsplit
      have heq : word = "--" ++ rule.name := by
        apply String.toList_injective
        simp [hword, hsplit]
      rw [heq]
      exact .name
  | cons c value =>
      have hc : c = '=' := by
        have hnot := List.head_dropWhile_not (fun c => c != '=') (l := body) (by simp [hdrop])
        simpa [hdrop] using hnot
      rw [hdrop, hc] at hsplit
      have heq : word = "--" ++ rule.name ++ "=" ++ String.ofList value := by
        apply String.toList_injective
        simp [hword, ← hsplit]
      rw [heq]
      exact .nameWith _

/-- A word with one hyphen begins the option of its letter. -/
lemma begins_of_letter {c : Char} {body : List Char} (hword : word.toList = '-' :: c :: body)
    (hletter : rule.letter = some c) : rule.Begins word (valueAfterLetter body) := by
  have heq : word = String.ofList ('-' :: c :: body) := by
    apply String.toList_injective
    rw [hword, String.toList_ofList]
  subst heq
  unfold valueAfterLetter
  split
  · exact .letter hletter
  · next value =>
      have hword' : String.ofList ('-' :: c :: '=' :: value) =
          String.ofList ['-', c, '='] ++ String.ofList value := by
        apply String.toList_injective
        simp
      rw [hword']
      exact .letterWith hletter _
  · next hne hne' =>
      cases body with
      | nil => exact absurd rfl hne
      | cons d cs =>
          refine .letterBefore hletter ?_ cs
          rintro rfl
          exact hne' cs rfl

/-- A word begins one option, in one way. -/
lemma Begins.unique {rules : List OptionRule} (hdistinct : Distinct rules) (hrule : rule ∈ rules)
    (hrule' : rule' ∈ rules) (h : rule.Begins word attached) (h' : rule'.Begins word attached') :
    rule = rule' ∧ attached = attached' := by
  obtain ⟨-, hname, hletter⟩ := hdistinct.plain rule hrule
  obtain ⟨-, hname', hletter'⟩ := hdistinct.plain rule' hrule'
  obtain ⟨body, hword, hn, rfl⟩ | ⟨c, body, hword, hc, hl, rfl⟩ := h.read hname hletter <;>
  obtain ⟨body', hword', hn', rfl⟩ | ⟨c', body', hword', hc', hl', rfl⟩ := h'.read hname' hletter'
  · rw [hword] at hword'
    cases hword'
    exact ⟨hdistinct.eq_of_not_apart hrule hrule' fun h => h.1 (hn.symm.trans hn'), rfl⟩
  · rw [hword] at hword'
    cases hword'
    exact absurd rfl hc'
  · rw [hword] at hword'
    cases hword'
    exact absurd rfl hc
  · rw [hword] at hword'
    cases hword'
    refine ⟨hdistinct.eq_of_not_apart hrule hrule' fun h => ?_, rfl⟩
    obtain hnone | hne := h.2
    · rw [hl] at hnone
      cases hnone
    · exact hne (hl.trans hl'.symm)

end OptionRule

/-! ### Occurrences -/

/-- The words that give values to an option: the values follow the word that begins the option, or a
single value is attached to it. -/
inductive OptionRule.Spelling (rule : OptionRule) : List String → List String → Prop
  | apart {head : String} {values : List String} (begins : rule.Begins head none)
      (plain : ∀ value ∈ values, ¬Hyphened value) : Spelling rule values (head :: values)
  | attached {head value : String} (begins : rule.Begins head (some value)) :
      Spelling rule [value] [head]

/-- An option as it stands on a command line. -/
structure Occurrence where
  rule : OptionRule
  values : List String
  words : List String

/-- What a level gives when the options that stand on it are taken one after the other. -/
inductive Grammar.Accepts (g : Grammar) : List Occurrence → Level → Prop
  | nil : Accepts g [] ∅
  | snoc {occs : List Occurrence} {given : Level} {o : Occurrence} (before : Accepts g occs given)
      (known : o.rule ∈ g.rules) (spelled : o.rule.Spelling o.values o.words)
      (complete : o.values.length = o.rule.arity)
      (once : o.rule.repeatable = false → given[o.rule.name]? = none)
      (checked : ∀ value ∈ o.values, o.rule.check value = .ok ()) :
      Accepts g (occs ++ [o]) (given.add o.rule o.values)

/-- What a reading says about the words that were read so far. -/
inductive Reading.After (g : Grammar) : List String → Reading → Prop
  | settled {occs : List Occurrence} {given : Level} (before : g.Accepts occs given) :
      After g (occs.flatMap (·.words)) ⟨given, none⟩
  | pending {occs : List Occurrence} {given : Level} {rule : OptionRule} {head : String}
      {values : List String} (before : g.Accepts occs given) (known : rule ∈ g.rules)
      (begins : rule.Begins head none) (plain : ∀ value ∈ values, ¬Hyphened value) :
      After g (occs.flatMap (·.words) ++ head :: values) ⟨given, some (rule, values)⟩

section After

variable {g : Grammar} {r r' : Reading} {rule : OptionRule} {values words : List String}
  {head : String} {attached : Option String}

lemma Grammar.Accepts.accept {occs : List Occurrence} {given : Level} (h : g.Accepts occs given)
    (known : rule ∈ g.rules) (spelled : rule.Spelling values words)
    (haccept : (⟨given, none⟩ : Reading).accept rule values = .ok r') :
    g.Accepts (occs ++ [⟨rule, values, words⟩]) r'.given ∧ r'.pending = none := by
  obtain ⟨hlength, honce, hcheck, rfl⟩ := Reading.accept_eq_ok haccept
  exact ⟨.snoc h known spelled hlength honce hcheck, rfl⟩

namespace Reading

lemma after_of_accepts {occs : List Occurrence} (h : g.Accepts occs r.given)
    (hpending : r.pending = none) : After g (occs.flatMap (·.words)) r := by
  obtain ⟨given, pending⟩ := r
  cases hpending
  exact .settled h

/-- Once the last option is settled, the words are those of options that were taken. -/
lemma After.settle (h : After g words r) (hsettle : r.settle = .ok r') :
    ∃ occs, g.Accepts occs r'.given ∧ words = occs.flatMap (·.words) ∧ r'.pending = none := by
  obtain ⟨hpending, rfl⟩ | ⟨rule, values, hpending, haccept⟩ := settle_eq_ok hsettle
  · cases h with
    | settled before => exact ⟨_, before, rfl, rfl⟩
    | pending => cases hpending
  · cases h with
    | settled => cases hpending
    | pending before known begins plain =>
        cases hpending
        obtain ⟨htaken, hnone⟩ := before.accept known (.apart begins plain) haccept
        exact ⟨_, htaken, by simp, hnone⟩

lemma After.begin (h : After g words r) (known : rule ∈ g.rules)
    (begins : rule.Begins head attached) (hbegin : r.begin rule attached = .ok r') :
    After g (words ++ [head]) r' := by
  obtain ⟨⟨given, pending⟩, hsettle, hcases⟩ := begin_eq_ok hbegin
  obtain ⟨occs, hoccs, rfl, hnone⟩ := h.settle hsettle
  cases hnone
  obtain ⟨value, rfl, haccept⟩ | ⟨rfl, -, haccept⟩ | ⟨rfl, -, rfl⟩ := hcases
  · obtain ⟨htaken, hnone⟩ := hoccs.accept known (.attached begins) haccept
    simpa using after_of_accepts htaken hnone
  · obtain ⟨htaken, hnone⟩ := hoccs.accept known (.apart begins (List.forall_mem_nil _)) haccept
    simpa using after_of_accepts htaken hnone
  · exact .pending hoccs known begins (List.forall_mem_nil _)

lemma After.push (h : After g words r) (hawaiting : r.awaiting = true) {value : String}
    (hplain : ¬Hyphened value) : After g (words ++ [value]) (r.push value) := by
  cases h with
  | settled => cases hawaiting
  | pending before known begins plain =>
      rw [List.append_assoc, List.cons_append]
      refine .pending before known begins fun v hv => ?_
      obtain hv | hv := List.mem_append.1 hv
      · exact plain v hv
      · rwa [List.mem_singleton.1 hv]

end Reading

namespace Grammar

lemma readName_eq_ok {body : List Char} (h : g.readName body r = .ok r') :
    ∃ rule ∈ g.rules, rule.name = String.ofList (body.takeWhile (· != '=')) ∧
      r.begin rule (valueAfter body) = .ok r' := by
  unfold readName at h
  by_cases hhelp : String.ofList (body.takeWhile (· != '=')) = "help" ∨
      (String.ofList (body.takeWhile (· != '=')) = "version" ∧ g.isTop)
  · simp only [hhelp, if_true] at h
    by_cases hsome : (valueAfter body).isSome = true
    · rw [if_pos hsome] at h
      cases h
    · rw [if_neg hsome] at h
      obtain ⟨r₁, -, h⟩ := bind_eq_ok.1 h
      cases h
  · simp only [hhelp, if_false] at h
    cases hrule : g.rules.find? (·.name == String.ofList (body.takeWhile (· != '='))) with
    | none =>
        rw [hrule] at h
        cases h
    | some rule =>
        rw [hrule] at h
        simp only at h
        split at h
        · cases h
        · have hname := List.find?_some hrule
          exact ⟨rule, List.mem_of_find?_eq_some hrule, by simpa using hname, h⟩

lemma readLetters_eq_ok {letter : Char} {body : List Char}
    (h : g.readLetters (letter :: body) r = .ok r') :
    ∃ rule ∈ g.rules, rule.letter = some letter ∧
      r.begin rule (valueAfterLetter body) = .ok r' := by
  unfold readLetters at h
  by_cases hhelp : letter = 'h' ∨ (letter = 'V' ∧ g.isTop)
  · simp only [hhelp, if_true] at h
    obtain ⟨r₁, -, h⟩ := bind_eq_ok.1 h
    cases h
  · simp only [hhelp, if_false] at h
    cases hrule : g.rules.find? (·.letter == some letter) with
    | none =>
        rw [hrule] at h
        cases h
    | some rule =>
        rw [hrule] at h
        have hletter := List.find?_some hrule
        exact ⟨rule, List.mem_of_find?_eq_some hrule, by simpa using hletter, h⟩

/-- How a level ends: with the last word, with two hyphens behind it, or with the name of a
command. -/
inductive Ends (g : Grammar) : Option (String × List String) → List String → Prop
  | done : Ends g none []
  | marked : Ends g none ["--"]
  | command {name : String} {rest : List String} (known : name ∈ g.commands) :
      Ends g (some (name, rest)) (name :: rest)

/-- What is read are options, up to the end of the level. -/
theorem after_of_read {args : List String} {next : Option (String × List String)}
    (hr : Reading.After g words r) (h : g.read args r = .ok (r', next)) :
    ∃ more rest, args = more ++ rest ∧ Reading.After g (words ++ more) r' ∧ g.Ends next rest := by
  induction args generalizing words r with
  | nil =>
      cases h
      exact ⟨[], [], rfl, by rwa [List.append_nil], .done⟩
  | cons arg args ih =>
      unfold read at h
      split at h
      · next hmark =>
          cases args with
          | cons word args => cases h
          | nil =>
              cases h
              have harg : arg = "--" := String.toList_injective hmark
              rw [harg]
              exact ⟨[], ["--"], rfl, by rwa [List.append_nil], .marked⟩
      · next hmark =>
          split at h
          · next hcommand =>
              cases h
              exact ⟨[], arg :: args, rfl, by rwa [List.append_nil],
                .command (by simpa using hcommand.2)⟩
          · -- for any other word it is left to show that what was read stays a sequence of options
            have hthen : ∀ {r₁}, Reading.After g (words ++ [arg]) r₁ →
                g.read args r₁ = .ok (r', next) → ∃ more rest, arg :: args = more ++ rest ∧
                  Reading.After g (words ++ more) r' ∧ g.Ends next rest := by
              intro r₁ hr₁ hread
              obtain ⟨more, rest, rfl, hmore, hends⟩ := ih hr₁ hread
              refine ⟨arg :: more, rest, rfl, ?_, hends⟩
              rwa [List.append_assoc, List.singleton_append] at hmore
            split at h
            · next body hword =>
                obtain ⟨r₁, hname, h⟩ := bind_eq_ok.1 h
                obtain ⟨rule, known, hrule, hbegin⟩ := readName_eq_ok hname
                exact hthen (hr.begin known (OptionRule.begins_of_name hword hrule) hbegin) h
            · next letter body _ hword =>
                obtain ⟨r₁, hletters, h⟩ := bind_eq_ok.1 h
                obtain ⟨rule, known, hletter, hbegin⟩ := readLetters_eq_ok hletters
                exact hthen (hr.begin known (OptionRule.begins_of_letter hword hletter) hbegin) h
            · next hno hno' =>
                split at h
                · next hawaiting =>
                    refine hthen (hr.push hawaiting ?_) h
                    rintro ⟨c, cs, hword⟩
                    exact hno' c cs hword
                · cases h

end Grammar

end After

end EpochSplit.CommandLine
