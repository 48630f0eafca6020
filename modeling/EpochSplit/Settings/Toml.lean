import EpochSplit.Settings
/-!
# Settings files

A settings file is a TOML document that gives some of the settings at its top level.  Every setting
is a text, a number or a truth value, so these are the only values that `read?` understands; the
other values, tables and dotted names can stand in no settings file.
-/

namespace EpochSplit.Toml

/-- A value that a setting can have. -/
inductive Value where
  | text (value : String)
  | integer (value : Int)
  | boolean (value : Bool)
deriving DecidableEq

/-! ### Characters -/

/-- The blanks within a line. -/
def isBlank (c : Char) : Bool := c == ' ' || c == '\t'

/-- The characters of a name that is not quoted. -/
def isBare (c : Char) : Bool := c.isAlphanum || c == '_' || c == '-'

/-- The characters that comments and texts may hold: no control characters but tabulators. -/
def isPrintable (c : Char) : Bool := c == '\t' || (0x20 ≤ c.toNat && c.toNat != 0x7F)

/-- The value of a digit in a base up to sixteen. -/
def digit? (base : Nat) (c : Char) : Option Nat :=
  let value :=
    if '0' ≤ c ∧ c ≤ '9' then c.toNat - 48
    else if 'a' ≤ c ∧ c ≤ 'f' then c.toNat - 87
    else if 'A' ≤ c ∧ c ≤ 'F' then c.toNat - 55
    else base
  if value < base then some value else none

/-- Skips blanks within a line. -/
def skipBlanks (cs : List Char) : List Char := cs.dropWhile isBlank

/-! ### Numbers -/

/-- The number that digits stand for, each but the first possibly after an underscore. -/
def digits? (base : Nat) : List Char → Option Nat
  | [] => none
  | c :: cs => do go (← digit? base c) cs
where
  /-- Adds the digits that follow a number. -/
  go (n : Nat) : List Char → Option Nat
    | [] => some n
    | '_' :: c :: cs => do go (n * base + (← digit? base c)) cs
    | c :: cs => do go (n * base + (← digit? base c)) cs

/-- A decimal number without sign; it has no leading zero. -/
def decimal? (cs : List Char) : Option Nat :=
  match cs with
  | ['0'] => some 0
  | '0' :: _ => none
  | cs => digits? 10 cs

/-- A number: decimal with or without sign, or in base sixteen, eight or two with its mark.  Numbers
fit 64 bits. -/
def integer? (cs : List Char) : Option Int := do
  let n : Int ← match cs with
    | '0' :: 'x' :: cs => digits? 16 cs
    | '0' :: 'o' :: cs => digits? 8 cs
    | '0' :: 'b' :: cs => digits? 2 cs
    | '+' :: cs => decimal? cs
    | '-' :: cs => (decimal? cs).map fun n => -(n : Int)
    | cs => decimal? cs
  if Int64.minValue.toInt ≤ n ∧ n ≤ Int64.maxValue.toInt then some n else none

/-! ### Texts -/

/-- The character of a given number, if the number is one of a character. -/
def charOfDigits? (digits : List Char) : Option Char := do
  let n ← digits.foldlM (fun n c => (digit? 16 c).map (16 * n + ·)) 0
  if n.isValidChar then some (Char.ofNat n) else none

/-- Reads the rest of an escape, after its backslash. -/
def readEscape : List Char → Option (Char × List Char)
  | 'b' :: cs => some ('\x08', cs)
  | 't' :: cs => some ('\t', cs)
  | 'n' :: cs => some ('\n', cs)
  | 'f' :: cs => some ('\x0c', cs)
  | 'r' :: cs => some ('\r', cs)
  | '"' :: cs => some ('"', cs)
  | '\\' :: cs => some ('\\', cs)
  | 'u' :: a :: b :: c :: d :: cs => (charOfDigits? [a, b, c, d]).map (·, cs)
  | 'U' :: a :: b :: c :: d :: e :: f :: g :: h :: cs =>
      (charOfDigits? [a, b, c, d, e, f, g, h]).map (·, cs)
  | _ => none

/-- Reads a text in double quotes, after the opening quote.  The first argument bounds the number of
characters. -/
def readQuoted : Nat → List Char → Option (List Char × List Char)
  | 0, _ | _, [] => none
  | _, '"' :: cs => some ([], cs)
  | steps + 1, '\\' :: cs => do
      let (c, cs) ← readEscape cs
      let (text, cs) ← readQuoted steps cs
      return (c :: text, cs)
  | steps + 1, c :: cs =>
      if isPrintable c then (readQuoted steps cs).map fun (text, cs) => (c :: text, cs) else none

/-- Reads a text in single quotes, after the opening quote. -/
def readLiteral : List Char → Option (List Char × List Char)
  | [] => none
  | '\'' :: cs => some ([], cs)
  | c :: cs =>
      if isPrintable c then (readLiteral cs).map fun (text, cs) => (c :: text, cs) else none

/-- The quotes of a given kind at the start, if they close a text of several lines: three close it,
and up to two more before them belong to the text. -/
def closing? (quote : Char) (cs : List Char) : Option (List Char × List Char) :=
  let count := (cs.takeWhile (· == quote)).length
  if count < 3 then none
  else
    let own := min (count - 3) 2
    some (List.replicate own quote, cs.drop (own + 3))

/-- Skips the blanks and line ends after a backslash at the end of a line. -/
def skipLines : List Char → List Char
  | '\r' :: '\n' :: cs => skipLines cs
  | c :: cs => if isBlank c || c == '\n' then skipLines cs else c :: cs
  | [] => []

/-- What follows the line end at the start, if there is one. -/
def lineEnd? : List Char → Option (List Char)
  | '\n' :: cs => some cs
  | '\r' :: '\n' :: cs => some cs
  | _ => none

/-- Reads a text of several lines in triple quotes, after the opening quotes.  Line ends are kept as
single characters.  Escapes are read in double quotes only. -/
def readLines (quote : Char) : Nat → List Char → Option (List Char × List Char)
  | 0, _ | _, [] => none
  | steps + 1, c :: cs =>
      if c = quote then
        match closing? quote (c :: cs) with
        | some closed => some closed
        | none => (readLines quote steps cs).map fun (text, cs) => (c :: text, cs)
      else if c = '\\' ∧ quote = '"' then
        match lineEnd? (skipBlanks cs) with
        | some cs => readLines quote steps (skipLines cs)
        | none => do
            let (c, cs) ← readEscape cs
            let (text, cs) ← readLines quote steps cs
            return (c :: text, cs)
      else
        match lineEnd? (c :: cs) with
        | some cs => (readLines quote steps cs).map fun (text, cs) => ('\n' :: text, cs)
        | none =>
            if isPrintable c then
              (readLines quote steps cs).map fun (text, cs) => (c :: text, cs)
            else none

/-- Reads a text of several lines.  A line end right after the opening quotes is not part of it. -/
def readBlock (quote : Char) (cs : List Char) : Option (List Char × List Char) :=
  readLines quote (cs.length + 1) ((lineEnd? cs).getD cs)

/-! ### Lines -/

/-- Reads a value. -/
def readValue (cs : List Char) : Option (Value × List Char) :=
  match cs with
  | '"' :: '"' :: '"' :: cs => (readBlock '"' cs).map fun (t, cs) => (.text (String.ofList t), cs)
  | '"' :: cs => (readQuoted (cs.length + 1) cs).map fun (t, cs) => (.text (String.ofList t), cs)
  | '\'' :: '\'' :: '\'' :: cs =>
      (readBlock '\'' cs).map fun (t, cs) => (.text (String.ofList t), cs)
  | '\'' :: cs => (readLiteral cs).map fun (t, cs) => (.text (String.ofList t), cs)
  | cs =>
      let isWord (c : Char) := isBare c || c == '+' || c == '.' || c == ':'
      let word := cs.takeWhile isWord
      let rest := cs.dropWhile isWord
      if word = "true".toList then some (.boolean true, rest)
      else if word = "false".toList then some (.boolean false, rest)
      else (integer? word).map fun n => (.integer n, rest)

/-- Reads a name. -/
def readName (cs : List Char) : Option (String × List Char) :=
  match cs with
  | '"' :: cs => (readQuoted (cs.length + 1) cs).map fun (t, cs) => (String.ofList t, cs)
  | '\'' :: cs => (readLiteral cs).map fun (t, cs) => (String.ofList t, cs)
  | cs =>
      match cs.takeWhile isBare with
      | [] => none
      | name => some (String.ofList name, cs.dropWhile isBare)

/-- Skips what may stand at the end of a line: blanks, a comment and the line end, which may be
missing at the end of the document. -/
def finishLine (cs : List Char) : Option (List Char) :=
  match skipBlanks cs with
  | [] => some []
  | '#' :: cs =>
      match cs.dropWhile isPrintable with
      | [] => some []
      | cs => lineEnd? cs
  | cs => lineEnd? cs

/-- Reads the names and values of a document line by line.  The first argument bounds the number of
lines. -/
def readPairs : Nat → List Char → Option (List (String × Value))
  | _, [] => some []
  | 0, _ => none
  | steps + 1, cs =>
      match finishLine cs with
      | some rest => readPairs steps rest
      | none => do
          let (name, rest) ← readName (skipBlanks cs)
          match skipBlanks rest with
          | '=' :: rest => do
              let (value, rest) ← readValue (skipBlanks rest)
              let rest ← finishLine rest
              let pairs ← readPairs steps rest
              return (name, value) :: pairs
          | _ => none

/-- Reads the names and values of a document.  No name stands twice.  A byte order mark at the start
is skipped. -/
def read? (text : String) : Option (List (String × Value)) := do
  let cs := match text.toList with
    | '\uFEFF' :: cs => cs
    | cs => cs
  let pairs ← readPairs (cs.length + 1) cs
  if (pairs.map Prod.fst).Nodup then some pairs else none

/-! ### Values of settings -/

namespace Value

/-- The text that a value is. -/
def text? : Value → Option String
  | text value => some value
  | _ => none

/-- The truth value that a value is. -/
def truth? : Value → Option Bool
  | boolean value => some value
  | _ => none

/-- The number below `bound` that a value is. -/
def below? (bound : Nat) : Value → Option Nat
  | integer n => if 0 ≤ n ∧ n < bound then some n.toNat else none
  | _ => none

/-- The number of 64 bits that a value is. -/
def count? (v : Value) : Option UInt64 := (v.below? UInt64.size).map .ofNat

/-- The number of 32 bits that a value is. -/
def word? (v : Value) : Option UInt32 := (v.below? UInt32.size).map .ofNat

end Value

end Toml

namespace Overrides

/-- Adds one field of a settings file. -/
def addField? (o : Overrides) (p : String × Toml.Value) : Option Overrides :=
  if p.1 = "source_path" then p.2.text?.map fun path => { o with sourcePath := some path }
  else if p.1 = "target_path" then p.2.text?.map fun path => { o with targetPath := some path }
  else if p.1 = "batch_size" then p.2.count?.map fun n => { o with batchSize := some n }
  else if p.1 = "compact_after_migrate" then
    p.2.truth?.map fun b => { o with compactAfterMigrate := some b }
  else if p.1 = "signature_epoch_threshold" then
    p.2.word?.map fun n => { o with signatureEpochThreshold := some n }
  else if p.1 = "map_size_mb" then p.2.count?.map fun n => { o with mapSizeMb := some n }
  else none

/-- The settings that a settings file gives. -/
def ofToml? (text : String) : Option Overrides :=
  (Toml.read? text).bind fun pairs => pairs.foldlM addField? {}

end Overrides

end EpochSplit
