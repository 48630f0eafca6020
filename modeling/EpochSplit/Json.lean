/-!
# JSON

JSON texts as trees.  Strings and numbers are kept as they are written, so that a tree says
everything that its text says except for the blanks: `compact` and `pretty` write a tree, and
`parse?` reads it back.
-/

namespace EpochSplit

/-- A JSON text as a tree.  Numbers are kept as they are written, strings as they are written
between the quotes. -/
inductive Json where
  | null
  | bool (value : Bool)
  | number (written : String)
  | string (written : String)
  | array (items : List Json)
  | object (members : List (String × Json))
deriving Inhabited

namespace Json

/-! ### Strings and numbers -/

/-- The digit of value `n`, in lower case. -/
def hexDigit (n : Nat) : Char :=
  if n < 10 then Char.ofNat (48 + n) else Char.ofNat (87 + n)

/-- A character as it is written in a string. -/
def quoteChar (c : Char) : List Char :=
  if c = '"' then ['\\', '"']
  else if c = '\\' then ['\\', '\\']
  else if c = '\n' then ['\\', 'n']
  else if c = '\r' then ['\\', 'r']
  else if c = '\t' then ['\\', 't']
  else if c = '\x08' then ['\\', 'b']
  else if c = '\x0c' then ['\\', 'f']
  else if c.toNat < 0x20 then
    ['\\', 'u', '0', '0', hexDigit (c.toNat / 16), hexDigit (c.toNat % 16)]
  else [c]

/-- The written form of a text. -/
def quote (text : String) : String :=
  String.ofList (text.toList.flatMap quoteChar)

/-- The value of a hexadecimal digit. -/
def hexValue? (c : Char) : Option Nat :=
  if '0' ≤ c ∧ c ≤ '9' then some (c.toNat - 48)
  else if 'a' ≤ c ∧ c ≤ 'f' then some (c.toNat - 87)
  else if 'A' ≤ c ∧ c ≤ 'F' then some (c.toNat - 55)
  else none

/-- The value of four hexadecimal digits. -/
def hexWord? (a b c d : Char) : Option Nat := do
  return ((← hexValue? a) * 16 + (← hexValue? b)) * 256 +
    ((← hexValue? c) * 16 + (← hexValue? d))

/-- The character that a backslash and a letter stand for. -/
def escaped? : Char → Option Char
  | '"' => some '"'
  | '\\' => some '\\'
  | '/' => some '/'
  | 'b' => some '\x08'
  | 'f' => some '\x0c'
  | 'n' => some '\n'
  | 'r' => some '\r'
  | 't' => some '\t'
  | _ => none

/-- The characters that a written string stands for.  A half of a surrogate pair stands for
none. -/
def unquoteChars : List Char → Option (List Char)
  | [] => some []
  | '\\' :: 'u' :: a :: b :: c :: d :: rest => do
      let n ← hexWord? a b c d
      if 0xD800 ≤ n ∧ n < 0xDC00 then
        match rest with
        | '\\' :: 'u' :: a' :: b' :: c' :: d' :: rest => do
            let low ← hexWord? a' b' c' d'
            if 0xDC00 ≤ low ∧ low < 0xE000 then
              (unquoteChars rest).map
                (Char.ofNat (0x10000 + (n - 0xD800) * 0x400 + (low - 0xDC00)) :: ·)
            else none
        | _ => none
      else if 0xDC00 ≤ n ∧ n < 0xE000 then none
      else (unquoteChars rest).map (Char.ofNat n :: ·)
  | '\\' :: c :: rest => do
      let c ← escaped? c
      (unquoteChars rest).map (c :: ·)
  | c :: rest => (unquoteChars rest).map (c :: ·)

/-- The text that a written string stands for. -/
def unquote? (written : String) : Option String :=
  (unquoteChars written.toList).map String.ofList

/-- The number that decimal digits stand for. -/
def ofDigits (digits : List Char) : Nat :=
  digits.foldl (fun n c => 10 * n + (c.toNat - 48)) 0

/-- The natural number that is written plainly: decimal digits, the first not zero unless it is the
only one. -/
def natural? (written : String) : Option Nat :=
  match written.toList with
  | [] => none
  | digits@(c :: rest) =>
      if digits.all Char.isDigit && (c != '0' || rest.isEmpty) then some (ofDigits digits) else none

/-- A string value. -/
def text (s : String) : Json := string (quote s)

/-- A natural number. -/
def natural (n : Nat) : Json := number (toString n)

/-! ### Writing -/

mutual

/-- Writes a tree without blanks. -/
def compact : Json → String
  | null => "null"
  | bool b => if b then "true" else "false"
  | number written => written
  | string written => "\"" ++ written ++ "\""
  | array items => "[" ++ compactItems items ++ "]"
  | object members => "\x7b" ++ compactMembers members ++ "\x7d"

/-- Writes the items of an array, separated by commas. -/
def compactItems : List Json → String
  | [] => ""
  | [j] => compact j
  | j :: js => compact j ++ "," ++ compactItems js

/-- Writes the members of an object, separated by commas. -/
def compactMembers : List (String × Json) → String
  | [] => ""
  | [(key, j)] => "\"" ++ key ++ "\":" ++ compact j
  | (key, j) :: rest => "\"" ++ key ++ "\":" ++ compact j ++ "," ++ compactMembers rest

end

/-- A line break and `depth` steps of two blanks. -/
def newLine (depth : Nat) : String :=
  "\n" ++ String.ofList (List.replicate (2 * depth) ' ')

mutual

/-- Writes a tree with every item and member on a line of its own, `depth` steps to the right. -/
def prettyAt (depth : Nat) : Json → String
  | array [] => "[]"
  | array items => "[" ++ prettyItems (depth + 1) items ++ newLine depth ++ "]"
  | object [] => "\x7b\x7d"
  | object members => "\x7b" ++ prettyMembers (depth + 1) members ++ newLine depth ++ "\x7d"
  | null => "null"
  | bool b => if b then "true" else "false"
  | number written => written
  | string written => "\"" ++ written ++ "\""

/-- Writes the items of an array on lines of their own. -/
def prettyItems (depth : Nat) : List Json → String
  | [] => ""
  | [j] => newLine depth ++ prettyAt depth j
  | j :: js => newLine depth ++ prettyAt depth j ++ "," ++ prettyItems depth js

/-- Writes the members of an object on lines of their own. -/
def prettyMembers (depth : Nat) : List (String × Json) → String
  | [] => ""
  | [(key, j)] => newLine depth ++ "\"" ++ key ++ "\": " ++ prettyAt depth j
  | (key, j) :: rest =>
      newLine depth ++ "\"" ++ key ++ "\": " ++ prettyAt depth j ++ "," ++ prettyMembers depth rest

end

/-- Writes a tree over several lines. -/
def pretty (j : Json) : String := prettyAt 0 j

/-! ### Reading -/

/-- The blanks of JSON. -/
def isBlank (c : Char) : Bool :=
  c == ' ' || c == '\n' || c == '\r' || c == '\t'

/-- Skips blanks. -/
def skipBlanks (cs : List Char) : List Char := cs.dropWhile isBlank

/-- Splits a string, whose opening quote has been read, at its closing quote. -/
def readString : List Char → Option (List Char × List Char)
  | [] => none
  | '"' :: rest => some ([], rest)
  | '\\' :: 'u' :: a :: b :: c :: d :: rest => do
      let _ ← hexWord? a b c d
      let (cs, rest) ← readString rest
      return ('\\' :: 'u' :: a :: b :: c :: d :: cs, rest)
  | '\\' :: c :: rest => do
      let _ ← escaped? c
      let (cs, rest) ← readString rest
      return ('\\' :: c :: cs, rest)
  | c :: rest =>
      if c.toNat < 0x20 ∨ c = '\\' then none
      else (readString rest).map fun (cs, rest) => (c :: cs, rest)

/-- Splits off one digit at least. -/
def readDigits (cs : List Char) : Option (List Char × List Char) :=
  match cs.takeWhile Char.isDigit with
  | [] => none
  | digits => some (digits, cs.dropWhile Char.isDigit)

/-- Splits off the fraction of a number, if there is one. -/
def readFraction : List Char → Option (List Char × List Char)
  | '.' :: rest => (readDigits rest).map fun (ds, rest) => ('.' :: ds, rest)
  | cs => some ([], cs)

/-- Splits off the exponent of a number, if there is one. -/
def readExponent : List Char → Option (List Char × List Char)
  | e :: rest =>
      if e = 'e' ∨ e = 'E' then
        match rest with
        | sign :: digits =>
            if sign = '+' ∨ sign = '-' then
              (readDigits digits).map fun (ds, rest) => (e :: sign :: ds, rest)
            else (readDigits rest).map fun (ds, rest) => (e :: ds, rest)
        | [] => none
      else some ([], e :: rest)
  | [] => some ([], [])

/-- Splits off a number without its sign.  A leading zero stands alone. -/
def readUnsigned (cs : List Char) : Option (List Char × List Char) := do
  let (whole, rest) ← match cs with
    | '0' :: rest => if (rest.head?.any Char.isDigit) then none else some (['0'], rest)
    | _ => readDigits cs
  let (fraction, rest) ← readFraction rest
  let (exponent, rest) ← readExponent rest
  return (whole ++ fraction ++ exponent, rest)

/-- Splits off a number. -/
def readNumber : List Char → Option (List Char × List Char)
  | '-' :: rest => (readUnsigned rest).map fun (cs, rest) => ('-' :: cs, rest)
  | cs => readUnsigned cs

mutual

/-- Reads a value.  The first argument bounds the number of steps. -/
def readValue : Nat → List Char → Option (Json × List Char)
  | 0, _ => none
  | steps + 1, cs =>
      match skipBlanks cs with
      | 'n' :: 'u' :: 'l' :: 'l' :: rest => some (null, rest)
      | 't' :: 'r' :: 'u' :: 'e' :: rest => some (bool true, rest)
      | 'f' :: 'a' :: 'l' :: 's' :: 'e' :: rest => some (bool false, rest)
      | '"' :: rest => (readString rest).map fun (cs, rest) => (string (String.ofList cs), rest)
      | '[' :: rest =>
          match skipBlanks rest with
          | ']' :: rest => some (array [], rest)
          | rest => (readItems steps rest).map fun (js, rest) => (array js, rest)
      | '{' :: rest =>
          match skipBlanks rest with
          | '}' :: rest => some (object [], rest)
          | rest => (readMembers steps rest).map fun (ms, rest) => (object ms, rest)
      | cs => (readNumber cs).map fun (written, rest) => (number (String.ofList written), rest)

/-- Reads the items of an array up to the closing bracket; there is one at least. -/
def readItems : Nat → List Char → Option (List Json × List Char)
  | 0, _ => none
  | steps + 1, cs => do
      let (j, rest) ← readValue steps cs
      match skipBlanks rest with
      | ',' :: rest => (readItems steps rest).map fun (js, rest) => (j :: js, rest)
      | ']' :: rest => some ([j], rest)
      | _ => none

/-- Reads the members of an object up to the closing brace; there is one at least. -/
def readMembers : Nat → List Char → Option (List (String × Json) × List Char)
  | 0, _ => none
  | steps + 1, cs =>
      match skipBlanks cs with
      | '"' :: rest => do
          let (key, rest) ← readString rest
          match skipBlanks rest with
          | ':' :: rest => do
              let (j, rest) ← readValue steps rest
              match skipBlanks rest with
              | ',' :: rest =>
                  (readMembers steps rest).map fun (ms, rest) =>
                    ((String.ofList key, j) :: ms, rest)
              | '}' :: rest => some ([(String.ofList key, j)], rest)
              | _ => none
          | _ => none
      | _ => none

end

/-- Reads a whole text.  A value takes two steps for each of its characters at most. -/
def parse? (text : String) : Option Json :=
  let cs := text.toList
  match readValue (2 * cs.length + 1) cs with
  | some (j, rest) => if (skipBlanks rest).isEmpty then some j else none
  | none => none

/-! ### Taking trees apart -/

/-- The 32-bit number that is written plainly. -/
def word? (written : String) : Option UInt32 :=
  match natural? written with
  | some n => if n < UInt32.size then some (UInt32.ofNat n) else none
  | none => none

/-- A tree that is a plain 32-bit number. -/
def toWord? : Json → Option UInt32
  | number written => word? written
  | _ => none

/-- The text of a tree that is a string. -/
def toText? : Json → Option String
  | string written => unquote? written
  | _ => none

/-- The values of the named fields, in the order of the names.  In an object each field stands once,
and members of other names do not matter; an array holds just the values, in order. -/
def fields? (names : List String) : Json → Option (List Json)
  | array items => if items.length = names.length then some items else none
  | object members => do
      let members ← members.mapM fun (key, j) => (unquote? key).map (·, j)
      names.mapM fun name =>
        match members.filter (·.1 == name) with
        | [(_, j)] => some j
        | _ => none
  | _ => none

end Json

end EpochSplit
