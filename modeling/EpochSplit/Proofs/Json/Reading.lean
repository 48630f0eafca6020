import Mathlib.Data.List.Basic
import Mathlib.Data.List.TakeDrop
import EpochSplit.Json
/-!
# Reading written trees

A tree whose numbers and strings are written as JSON asks is read back from what the writers write,
be it on one line or over several.  Both writers are followed through one notion: `ReadsAs cs j`
says that the characters `cs`, whatever else stands after them, are read as the tree `j`.  The
lemmas on `ReadsAs`, `ReadsItems` and `ReadsMembers` are the grammar of JSON, one for each form of a
tree, and the writers are seen to follow it by induction on the tree.
-/

namespace EpochSplit.Json

variable {c : Char} {cs ws rest : List Char} {steps : Nat} {written name : String} {j : Json}
  {items : List Json} {members : List (String × Json)}

/-! ### Blanks -/

/-- Nothing but blanks. -/
def Blank (ws : List Char) : Prop := ∀ c ∈ ws, isBlank c = true

lemma blank_nil : Blank [] := fun _ h => absurd h List.not_mem_nil

lemma blank_space : Blank [' '] := by
  intro c hc
  rw [List.mem_singleton.mp hc]
  rfl

lemma blank_newLine (depth : Nat) : Blank (newLine depth).toList := by
  intro c hc
  have hline : (newLine depth).toList = '\n' :: List.replicate (2 * depth) ' ' := by
    simp [newLine]
  rw [hline, List.mem_cons] at hc
  obtain rfl | hc := hc
  · rfl
  · rw [List.eq_of_mem_replicate hc]
    rfl

lemma skipBlanks_cons (hc : isBlank c = false) (cs : List Char) :
    skipBlanks (c :: cs) = c :: cs :=
  List.dropWhile_cons_of_neg (by simp [hc])

lemma skipBlanks_append (hws : Blank ws) (cs : List Char) :
    skipBlanks (ws ++ cs) = skipBlanks cs :=
  List.dropWhile_append_of_pos hws

lemma skipBlanks_skipBlanks (cs : List Char) : skipBlanks (skipBlanks cs) = skipBlanks cs := by
  induction cs with
  | nil => rfl
  | cons c cs ih =>
      cases hc : isBlank c with
      | true =>
          have hstep : skipBlanks (c :: cs) = skipBlanks cs := List.dropWhile_cons_of_pos hc
          rw [hstep, ih]
      | false => rw [skipBlanks_cons hc, skipBlanks_cons hc]

/-- Blanks before a value do not matter. -/
lemma readValue_congr {cs' : List Char} (h : skipBlanks cs = skipBlanks cs') (steps : Nat) :
    readValue steps cs = readValue steps cs' := by
  cases steps with
  | zero => rfl
  | succ steps => rw [readValue, readValue, h]

lemma readItems_congr {cs' : List Char} (h : skipBlanks cs = skipBlanks cs') (steps : Nat) :
    readItems steps cs = readItems steps cs' := by
  cases steps with
  | zero => rfl
  | succ steps => rw [readItems, readItems, readValue_congr h]

lemma readMembers_congr {cs' : List Char} (h : skipBlanks cs = skipBlanks cs') (steps : Nat) :
    readMembers steps cs = readMembers steps cs' := by
  cases steps with
  | zero => rfl
  | succ steps => rw [readMembers, readMembers, h]

/-! ### Numbers and strings -/

/-- A number ends before these characters: none of them continues it. -/
def Stops (rest : List Char) : Prop :=
  ∀ c ∈ rest.head?, c.isDigit = false ∧ c ≠ '.' ∧ c ≠ 'e' ∧ c ≠ 'E'

/-- Written as JSON asks of a number: all of it is read as a number, up to where it stops. -/
def IsNumber (written : String) : Prop :=
  ∀ ⦃rest⦄, Stops rest → readNumber (written.toList ++ rest) = some (written.toList, rest)

/-- Written as JSON asks of what stands between the quotes of a string. -/
def IsString (written : String) : Prop :=
  ∀ rest, readString (written.toList ++ '"' :: rest) = some (written.toList, rest)

lemma stops_nil : Stops [] := by
  intro c hc
  cases hc

lemma stops_cons (h : c.isDigit = false ∧ c ≠ '.' ∧ c ≠ 'e' ∧ c ≠ 'E') (cs : List Char) :
    Stops (c :: cs) := by
  intro d hd
  cases hd
  exact h

/-- A number ends before blanks. -/
lemma Stops.blank (hrest : Stops rest) (hws : Blank ws) : Stops (ws ++ rest) := by
  cases ws with
  | nil => exact hrest
  | cons c ws =>
      refine stops_cons ?_ _
      have hc := hws c List.mem_cons_self
      simp only [isBlank, Bool.or_eq_true, beq_iff_eq] at hc
      obtain ((rfl | rfl) | rfl) | rfl := hc <;> decide

lemma takeWhile_isDigit (hcs : ∀ c ∈ cs, c.isDigit = true) (hrest : Stops rest) :
    (cs ++ rest).takeWhile Char.isDigit = cs ∧ (cs ++ rest).dropWhile Char.isDigit = rest := by
  have hnone : rest.takeWhile Char.isDigit = [] ∧ rest.dropWhile Char.isDigit = rest := by
    cases rest with
    | nil => exact ⟨rfl, rfl⟩
    | cons c rest => simp [(hrest c rfl).1]
  rw [List.takeWhile_append_of_pos hcs, List.dropWhile_append_of_pos hcs, hnone.1, hnone.2]
  exact ⟨List.append_nil cs, rfl⟩

lemma readFraction_of_stops (hrest : Stops rest) : readFraction rest = some ([], rest) := by
  rw [readFraction]
  rintro rest' rfl
  exact (hrest '.' rfl).2.1 rfl

lemma readExponent_of_stops (hrest : Stops rest) : readExponent rest = some ([], rest) := by
  cases rest with
  | nil => rfl
  | cons c rest =>
      obtain ⟨-, -, he, hE⟩ := hrest c rfl
      exact (readExponent.eq_def _).trans (if_neg (by simp [he, hE]))

/-- Decimal digits make a number, when the first of them is not zero or stands alone. -/
lemma isNumber_of_digits (hne : written.toList ≠ [])
    (hdigits : ∀ c ∈ written.toList, c.isDigit = true)
    (hzero : written.toList.head? = some '0' → written.toList = ['0']) : IsNumber written := by
  intro rest hrest
  obtain ⟨c, cs, hcs⟩ := List.exists_cons_of_ne_nil hne
  rw [hcs] at hdigits hzero ⊢
  have hdigit := hdigits c List.mem_cons_self
  have hminus : c ≠ '-' := by
    rintro rfl
    cases hdigit
  obtain ⟨htake, hdrop⟩ := takeWhile_isDigit hdigits hrest
  have hwhole : readUnsigned (c :: cs ++ rest) = some (c :: cs, rest) := by
    by_cases hc : c = '0'
    · subst hc
      obtain rfl : cs = [] := (List.cons.inj (hzero rfl)).2
      have hnot : (rest.head?.any Char.isDigit) = false := by
        cases rest with
        | nil => rfl
        | cons d rest => exact (hrest d rfl).1
      simp [readUnsigned, hnot, readFraction_of_stops hrest, readExponent_of_stops hrest]
    · have hread : readDigits (c :: cs ++ rest) = some (c :: cs, rest) := by
        rw [readDigits, htake, hdrop]
      rw [List.cons_append] at hread ⊢
      simp [readUnsigned, hc, hread, readFraction_of_stops hrest, readExponent_of_stops hrest]
  rw [List.cons_append] at hwhole ⊢
  rw [readNumber, hwhole]
  rintro rest' h
  exact hminus (List.cons.inj h).1

/-- A character that stands for itself in a string. -/
def isPlain (c : Char) : Bool := c != '"' && c != '\\' && 0x20 ≤ c.toNat

lemma isString_of_plain (hplain : written.toList.all isPlain = true) : IsString written := by
  intro rest
  generalize written.toList = cs at hplain
  induction cs with
  | nil => rfl
  | cons c cs ih =>
      rw [List.all_cons, Bool.and_eq_true] at hplain
      obtain ⟨hc, hplain⟩ := hplain
      simp only [isPlain, Bool.and_eq_true, bne_iff_ne, decide_eq_true_eq] at hc
      obtain ⟨⟨hquote, hslash⟩, hc⟩ := hc
      have ih := ih hplain
      have hnot : ¬(c.toNat < 0x20 ∨ c = '\\') := by
        rintro (h | h)
        · omega
        · exact hslash h
      rw [List.cons_append, readString, if_neg hnot, ih]
      · rfl
      · exact hquote
      · exact fun _ _ _ _ _ h => absurd h hslash
      · exact fun _ _ h => absurd h hslash

/-! ### Values -/

/-- The characters are read as a tree, whatever stands after them, in two steps for each of them. -/
def ReadsAs (cs : List Char) (j : Json) : Prop :=
  ∀ ⦃steps rest⦄, 2 * cs.length ≤ steps → Stops rest →
    readValue steps (cs ++ rest) = some (j, rest)

/-- The characters are read as the items of an array, up to its closing bracket. -/
def ReadsItems (cs : List Char) (items : List Json) : Prop :=
  ∀ ⦃steps⦄ rest, 2 * cs.length < steps →
    readItems steps (cs ++ ']' :: rest) = some (items, rest)

/-- The characters are read as the members of an object, up to its closing brace. -/
def ReadsMembers (cs : List Char) (members : List (String × Json)) : Prop :=
  ∀ ⦃steps⦄ rest, 2 * cs.length < steps →
    readMembers steps (cs ++ '\x7d' :: rest) = some (members, rest)

/-- A value takes a step at least. -/
lemma readsAs_of_succ (hne : cs ≠ [])
    (h : ∀ steps rest, 2 * cs.length ≤ steps + 1 → Stops rest →
      readValue (steps + 1) (cs ++ rest) = some (j, rest)) : ReadsAs cs j := by
  intro steps rest hsteps hrest
  have hpos := List.length_pos_iff.mpr hne
  cases steps with
  | zero => omega
  | succ steps => exact h steps rest hsteps hrest

/-- Blanks may stand before a value. -/
lemma ReadsAs.blank (h : ReadsAs cs j) (hws : Blank ws) : ReadsAs (ws ++ cs) j := by
  intro steps rest hsteps hrest
  have hskip : skipBlanks (ws ++ cs ++ rest) = skipBlanks (cs ++ rest) := by
    rw [List.append_assoc, skipBlanks_append hws]
  rw [readValue_congr hskip]
  rw [List.length_append] at hsteps
  exact h (by omega) hrest

/-- Characters that are read as a tree are a text of it. -/
lemma ReadsAs.parse {text : String} (h : ReadsAs text.toList j) : parse? text = some j := by
  have hread := h (Nat.le_succ (2 * text.toList.length)) stops_nil
  rw [List.append_nil] at hread
  rw [parse?, hread]
  rfl

/-- A number begins with its sign or with a digit. -/
lemma readNumber_eq_none (hminus : c ≠ '-') (hdigit : c.isDigit = false) (cs : List Char) :
    readNumber (c :: cs) = none := by
  have hzero : c ≠ '0' := by
    rintro rfl
    cases hdigit
  have hnone : readDigits (c :: cs) = none := by
    rw [readDigits, List.takeWhile_cons_of_neg (by simp [hdigit])]
  rw [readNumber, readUnsigned, hnone]
  · rfl
  · exact fun _ h => hzero (List.cons.inj h).1
  · exact fun _ h => hminus (List.cons.inj h).1

/-- What can be read as a number cannot be read as anything else. -/
lemma readValue_of_readNumber {digits : List Char} (h : readNumber cs = some (digits, rest)) :
    readValue (steps + 1) cs = some (number (String.ofList digits), rest) := by
  cases cs with
  | nil => cases h
  | cons c cs =>
      have hc : c = '-' ∨ c.isDigit = true := by
        by_contra hc
        obtain ⟨hminus, hdigit⟩ := not_or.mp hc
        rw [readNumber_eq_none hminus (by simpa using hdigit)] at h
        cases h
      have hblank : isBlank c = false := by
        by_contra hblank
        simp only [isBlank, Bool.not_eq_false, Bool.or_eq_true, beq_iff_eq] at hblank
        obtain ((rfl | rfl) | rfl) | rfl := hblank <;> exact absurd hc (by decide)
      rw [readValue, skipBlanks_cons hblank]
      split
      case h_7 => rw [h]; rfl
      all_goals
        next heq =>
          cases (List.cons.inj heq).1
          exact absurd hc (by decide)

lemma readsAs_null : ReadsAs "null".toList null :=
  readsAs_of_succ (by decide) fun _ _ _ _ => rfl

lemma readsAs_bool (b : Bool) : ReadsAs (if b then "true" else "false").toList (bool b) := by
  cases b with
  | false => exact readsAs_of_succ (by decide) fun _ _ _ _ => rfl
  | true => exact readsAs_of_succ (by decide) fun _ _ _ _ => rfl

lemma readsAs_number (h : IsNumber written) : ReadsAs written.toList (number written) := by
  have hne : written.toList ≠ [] := by
    intro hnil
    have hread := h stops_nil
    rw [hnil] at hread
    cases hread
  refine readsAs_of_succ hne fun steps rest _ hrest => ?_
  rw [readValue_of_readNumber (h hrest), String.ofList_toList]

lemma readsAs_string (h : IsString written) :
    ReadsAs ("\"" ++ written ++ "\"").toList (string written) := by
  refine readsAs_of_succ (by simp) fun steps rest _ _ => ?_
  have happ : ("\"" ++ written ++ "\"").toList ++ rest =
      '"' :: (written.toList ++ '"' :: rest) := by
    simp
  rw [happ, readValue, skipBlanks_cons (c := '"') rfl]
  simp only [h rest, Option.map_some, String.ofList_toList]

/-! ### Arrays -/

lemma readsAs_emptyArray : ReadsAs "[]".toList (array []) :=
  readsAs_of_succ (by decide) fun _ _ _ _ => rfl

/-- No value begins with the closing bracket. -/
lemma readValue_bracket (steps : Nat) (rest : List Char) :
    readValue steps (']' :: rest) = none := by
  cases steps with
  | zero => rfl
  | succ steps =>
      have hnumber : readNumber (']' :: rest) = none :=
        readNumber_eq_none (by decide) (by decide) rest
      rw [readValue, skipBlanks_cons (c := ']') rfl]
      exact congrArg (Option.map _) hnumber

lemma readItems_bracket (steps : Nat) (hcs : skipBlanks cs = ']' :: rest) :
    readItems steps cs = none := by
  have hskip : skipBlanks cs = skipBlanks (']' :: rest) := hcs
  rw [readItems_congr hskip]
  cases steps with
  | zero => rfl
  | succ steps =>
      rw [readItems, readValue_bracket]
      rfl

lemma ReadsItems.array {text : String} (h : ReadsItems text.toList items) :
    ReadsAs ("[" ++ text ++ "]").toList (array items) := by
  refine readsAs_of_succ (by simp) fun steps rest hsteps _ => ?_
  have happ : ("[" ++ text ++ "]").toList ++ rest = '[' :: (text.toList ++ ']' :: rest) := by
    simp
  have hlength : ("[" ++ text ++ "]").toList.length = text.toList.length + 2 := by
    simp
  have hread : readItems steps (text.toList ++ ']' :: rest) = some (items, rest) :=
    h rest (by omega)
  rw [happ, readValue, skipBlanks_cons (c := '[') rfl]
  simp only
  -- an array is empty if the closing bracket comes next, and no item begins with that
  split
  · next hbracket =>
      rw [readItems_bracket steps hbracket] at hread
      cases hread
  · next =>
      rw [readItems_congr (skipBlanks_skipBlanks _), hread]
      rfl

/-- The last item, with blanks after it. -/
lemma ReadsAs.lastItem (h : ReadsAs cs j) (hws : Blank ws) : ReadsItems (cs ++ ws) [j] := by
  intro steps rest hsteps
  obtain ⟨steps, rfl⟩ := Nat.exists_eq_add_one.mpr (Nat.zero_lt_of_lt hsteps)
  rw [List.length_append] at hsteps
  have hstops : Stops (ws ++ ']' :: rest) := Stops.blank (stops_cons (by decide) _) hws
  rw [readItems, List.append_assoc, h (by omega) hstops]
  simp only [skipBlanks_append hws, Option.bind_eq_bind, Option.bind_some]
  rfl

lemma ReadsAs.item {cs' : List Char} (h : ReadsAs cs j) (h' : ReadsItems cs' items) :
    ReadsItems (cs ++ ',' :: cs') (j :: items) := by
  intro steps rest hsteps
  obtain ⟨steps, rfl⟩ := Nat.exists_eq_add_one.mpr (Nat.zero_lt_of_lt hsteps)
  simp only [List.length_append, List.length_cons] at hsteps
  have hstops : Stops (',' :: (cs' ++ ']' :: rest)) := stops_cons (by decide) _
  rw [readItems, List.append_assoc, List.cons_append, h (by omega) hstops]
  simp only [skipBlanks_cons (c := ',') rfl, h' rest (by omega : 2 * cs'.length < steps),
    Option.bind_eq_bind, Option.bind_some, Option.map_some]

/-! ### Objects -/

lemma readsAs_emptyObject : ReadsAs "\x7b\x7d".toList (object []) :=
  readsAs_of_succ (by decide) fun _ _ _ _ => rfl

/-- No member begins with the closing brace. -/
lemma readMembers_brace (steps : Nat) (hcs : skipBlanks cs = '\x7d' :: rest) :
    readMembers steps cs = none := by
  cases steps with
  | zero => rfl
  | succ steps =>
      rw [readMembers, hcs]
      rfl

lemma ReadsMembers.object {text : String} (h : ReadsMembers text.toList members) :
    ReadsAs ("\x7b" ++ text ++ "\x7d").toList (object members) := by
  refine readsAs_of_succ (by simp) fun steps rest hsteps _ => ?_
  have happ : ("\x7b" ++ text ++ "\x7d").toList ++ rest =
      '\x7b' :: (text.toList ++ '\x7d' :: rest) := by
    simp
  have hlength : ("\x7b" ++ text ++ "\x7d").toList.length = text.toList.length + 2 := by
    simp
  have hread : readMembers steps (text.toList ++ '\x7d' :: rest) = some (members, rest) :=
    h rest (by omega)
  rw [happ, readValue, skipBlanks_cons (c := '\x7b') rfl]
  simp only
  split
  · next hbrace =>
      rw [readMembers_brace steps hbrace] at hread
      cases hread
  · next =>
      rw [readMembers_congr (skipBlanks_skipBlanks _), hread]
      rfl

/-- The name of a member and the colon after it. -/
def nameWritten (name : String) : List Char := '"' :: (name.toList ++ ['"', ':'])

/-- Once a member is read, what stands after it says whether it is the last one. -/
lemma readMembers_of_readValue {before rest' tail : List Char} (hbefore : Blank before)
    (hname : IsString name) (hvalue : readValue steps rest = some (j, rest')) :
    (skipBlanks rest' = '\x7d' :: tail →
        readMembers (steps + 1) (before ++ nameWritten name ++ rest) = some ([(name, j)], tail)) ∧
      (skipBlanks rest' = ',' :: tail → ∀ p, readMembers steps tail = some p →
        readMembers (steps + 1) (before ++ nameWritten name ++ rest) =
          some ((name, j) :: p.1, p.2)) := by
  have happ : before ++ nameWritten name ++ rest =
      before ++ '"' :: (name.toList ++ '"' :: ':' :: rest) := by
    simp [nameWritten]
  rw [happ, readMembers, skipBlanks_append hbefore]
  constructor
  · intro hskip
    simp only [skipBlanks_cons (c := '"') rfl, hname _, skipBlanks_cons (c := ':') rfl, hvalue,
      hskip, Option.bind_eq_bind, Option.bind_some, String.ofList_toList]
  · intro hskip p hp
    simp only [skipBlanks_cons (c := '"') rfl, hname _, skipBlanks_cons (c := ':') rfl, hvalue,
      hskip, hp, Option.bind_eq_bind, Option.bind_some, Option.map_some, String.ofList_toList]

/-- The last member, with blanks before it and after it. -/
lemma ReadsAs.lastMember {before after : List Char} (h : ReadsAs cs j) (hname : IsString name)
    (hbefore : Blank before) (hafter : Blank after) :
    ReadsMembers (before ++ nameWritten name ++ cs ++ after) [(name, j)] := by
  intro steps rest hsteps
  obtain ⟨steps, rfl⟩ := Nat.exists_eq_add_one.mpr (Nat.zero_lt_of_lt hsteps)
  simp only [List.length_append] at hsteps
  have hstops : Stops (after ++ '\x7d' :: rest) := Stops.blank (stops_cons (by decide) _) hafter
  have hvalue := h (by omega : 2 * cs.length ≤ steps) hstops
  rw [List.append_assoc, List.append_assoc]
  exact (readMembers_of_readValue hbefore hname hvalue).1 (skipBlanks_append hafter _)

lemma ReadsAs.member {cs' before : List Char} (h : ReadsAs cs j) (hname : IsString name)
    (hbefore : Blank before) (h' : ReadsMembers cs' members) :
    ReadsMembers (before ++ nameWritten name ++ cs ++ ',' :: cs') ((name, j) :: members) := by
  intro steps rest hsteps
  obtain ⟨steps, rfl⟩ := Nat.exists_eq_add_one.mpr (Nat.zero_lt_of_lt hsteps)
  simp only [List.length_append, List.length_cons] at hsteps
  have hstops : Stops (',' :: (cs' ++ '\x7d' :: rest)) := stops_cons (by decide) _
  have hvalue := h (by omega : 2 * cs.length ≤ steps) hstops
  have hread := h' rest (by omega : 2 * cs'.length < steps)
  rw [List.append_assoc, List.append_assoc, List.cons_append]
  exact (readMembers_of_readValue hbefore hname hvalue).2 rfl _ hread

/-! ### Written trees -/

/-- All numbers, strings and names of the tree are written as JSON asks. -/
inductive WellWritten : Json → Prop where
  | null : WellWritten null
  | bool (b : Bool) : WellWritten (bool b)
  | number {written : String} (h : IsNumber written) : WellWritten (number written)
  | string {written : String} (h : IsString written) : WellWritten (string written)
  | array {items : List Json} (h : ∀ j ∈ items, WellWritten j) : WellWritten (array items)
  | object {members : List (String × Json)} (hnames : ∀ m ∈ members, IsString m.1)
      (h : ∀ m ∈ members, WellWritten m.2) : WellWritten (object members)

/-- Items that are written one after the other, with commas between them, are read. -/
lemma readsItems_of_write (write : Json → List Char) (writeItems : List Json → List Char)
    (hafter : Blank ws) (hlast : ∀ j, writeItems [j] = write j ++ ws)
    (hitem : ∀ j j' js, writeItems (j :: j' :: js) = write j ++ ',' :: writeItems (j' :: js))
    (hne : items ≠ []) (h : ∀ j ∈ items, ReadsAs (write j) j) :
    ReadsItems (writeItems items) items := by
  induction items with
  | nil => exact absurd rfl hne
  | cons j js ih =>
      have hj := h j List.mem_cons_self
      cases js with
      | nil =>
          rw [hlast]
          exact hj.lastItem hafter
      | cons j' js =>
          have hrest := ih (List.cons_ne_nil _ _) fun k hk => h k (List.mem_cons_of_mem j hk)
          rw [hitem]
          exact hj.item hrest

/-- Members that are written one after the other, with commas between them, are read. -/
lemma readsMembers_of_write (write : Json → List Char)
    (writeMembers : List (String × Json) → List Char) {before after : List Char}
    (hbefore : Blank before) (hafter : Blank after)
    (hlast : ∀ name j, writeMembers [(name, j)] = before ++ nameWritten name ++ write j ++ after)
    (hmember : ∀ name j m ms, writeMembers ((name, j) :: m :: ms) =
      before ++ nameWritten name ++ write j ++ ',' :: writeMembers (m :: ms))
    (hne : members ≠ []) (hnames : ∀ m ∈ members, IsString m.1)
    (h : ∀ m ∈ members, ReadsAs (write m.2) m.2) : ReadsMembers (writeMembers members) members := by
  induction members with
  | nil => exact absurd rfl hne
  | cons m ms ih =>
      obtain ⟨name, j⟩ := m
      have hname := hnames _ List.mem_cons_self
      have hj := h _ List.mem_cons_self
      cases ms with
      | nil =>
          rw [hlast]
          exact hj.lastMember hname hbefore hafter
      | cons m' ms =>
          have hrest := ih (List.cons_ne_nil _ _)
            (fun k hk => hnames k (List.mem_cons_of_mem _ hk))
            (fun k hk => h k (List.mem_cons_of_mem _ hk))
          rw [hmember]
          exact hj.member hname hbefore hrest

lemma readsItems_compact (hne : items ≠ []) (h : ∀ j ∈ items, ReadsAs j.compact.toList j) :
    ReadsItems (compactItems items).toList items := by
  refine readsItems_of_write (·.compact.toList) (fun js => (compactItems js).toList) blank_nil
    (fun j => ?_) (fun j j' js => ?_) hne h
  · simp [compactItems]
  · simp [compactItems]

lemma readsMembers_compact (hne : members ≠ []) (hnames : ∀ m ∈ members, IsString m.1)
    (h : ∀ m ∈ members, ReadsAs m.2.compact.toList m.2) :
    ReadsMembers (compactMembers members).toList members := by
  refine readsMembers_of_write (·.compact.toList) (fun ms => (compactMembers ms).toList) blank_nil
    blank_nil (fun name j => ?_) (fun name j m ms => ?_) hne hnames h
  · simp [compactMembers, nameWritten]
  · simp [compactMembers, nameWritten]

/-- What is written without blanks is read as the tree. -/
lemma readsAs_compact (h : WellWritten j) : ReadsAs j.compact.toList j := by
  induction h with
  | null => exact readsAs_null
  | bool b => exact readsAs_bool b
  | number h => exact readsAs_number h
  | string h =>
      rw [compact]
      exact readsAs_string h
  | @array items _ ih =>
      rw [compact]
      cases items with
      | nil => exact readsAs_emptyArray
      | cons j js => exact (readsItems_compact (List.cons_ne_nil j js) ih).array
  | @object members hnames _ ih =>
      rw [compact]
      cases members with
      | nil => exact readsAs_emptyObject
      | cons m ms => exact (readsMembers_compact (List.cons_ne_nil m ms) hnames ih).object

lemma readsItems_pretty {depth : Nat} (hne : items ≠ [])
    (h : ∀ j ∈ items, ReadsAs (prettyAt depth j).toList j) {after : String}
    (hafter : Blank after.toList) : ReadsItems (prettyItems depth items ++ after).toList items := by
  refine readsItems_of_write (fun j => (newLine depth ++ prettyAt depth j).toList)
    (fun js => (prettyItems depth js ++ after).toList) hafter (fun j => ?_) (fun j j' js => ?_) hne
    fun j hj => ?_
  · simp [prettyItems]
  · simp [prettyItems]
  · rw [String.toList_append]
    exact (h j hj).blank (blank_newLine depth)

lemma readsMembers_pretty {depth : Nat} (hne : members ≠ [])
    (hnames : ∀ m ∈ members, IsString m.1)
    (h : ∀ m ∈ members, ReadsAs (prettyAt depth m.2).toList m.2) {after : String}
    (hafter : Blank after.toList) :
    ReadsMembers (prettyMembers depth members ++ after).toList members := by
  refine readsMembers_of_write (fun j => ' ' :: (prettyAt depth j).toList)
    (fun ms => (prettyMembers depth ms ++ after).toList) (blank_newLine depth) hafter
    (fun name j => ?_) (fun name j m ms => ?_) hne hnames fun m hm => (h m hm).blank blank_space
  · simp [prettyMembers, nameWritten]
  · simp [prettyMembers, nameWritten]

/-- What is written over several lines is read as the tree. -/
lemma readsAs_pretty (h : WellWritten j) (depth : Nat) : ReadsAs (prettyAt depth j).toList j := by
  induction h generalizing depth with
  | null => exact readsAs_null
  | bool b => exact readsAs_bool b
  | number h => exact readsAs_number h
  | string h =>
      rw [prettyAt]
      exact readsAs_string h
  | @array items _ ih =>
      cases items with
      | nil => exact readsAs_emptyArray
      | cons j js =>
          have hitems := readsItems_pretty (List.cons_ne_nil j js)
            (fun k hk => ih k hk (depth + 1)) (blank_newLine depth)
          have hassoc : "[" ++ prettyItems (depth + 1) (j :: js) ++ newLine depth =
              "[" ++ (prettyItems (depth + 1) (j :: js) ++ newLine depth) := String.append_assoc
          rw [prettyAt, hassoc]
          · exact ReadsItems.array hitems
          · exact List.cons_ne_nil j js
  | @object members hnames _ ih =>
      cases members with
      | nil => exact readsAs_emptyObject
      | cons m ms =>
          have hmembers := readsMembers_pretty (List.cons_ne_nil m ms) hnames
            (fun k hk => ih k hk (depth + 1)) (blank_newLine depth)
          have hassoc : "\x7b" ++ prettyMembers (depth + 1) (m :: ms) ++ newLine depth =
              "\x7b" ++ (prettyMembers (depth + 1) (m :: ms) ++ newLine depth) :=
            String.append_assoc
          rw [prettyAt, hassoc]
          · exact ReadsMembers.object hmembers
          · exact List.cons_ne_nil m ms

theorem WellWritten.parse_compact (h : WellWritten j) : parse? j.compact = some j :=
  (readsAs_compact h).parse

theorem WellWritten.parse_pretty (h : WellWritten j) : parse? j.pretty = some j :=
  (readsAs_pretty h 0).parse

end EpochSplit.Json
