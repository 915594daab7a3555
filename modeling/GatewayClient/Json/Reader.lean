/-
Reading JSON text, strictly: four blank characters, no duplicate meanings, no lone surrogates, at
most 127 arrays and objects inside one another.  `skipValue` checks the shape of a value that nobody
wants and is lenient where no value has to be built: any depth, any number, any escape.
-/
import GatewayClient.Json.Numeral

namespace GatewayClient.Json

def isBlank (c : Char) : Bool :=
  c = ' ' ∨ c = '\t' ∨ c = '\n' ∨ c = '\r'

def skipBlank (cs : List Char) : List Char :=
  cs.dropWhile isBlank

def hexValue? (c : Char) : Option Nat :=
  if '0' ≤ c ∧ c ≤ '9' then some (c.toNat - '0'.toNat)
  else if 'a' ≤ c ∧ c ≤ 'f' then some (c.toNat - 'a'.toNat + 10)
  else if 'A' ≤ c ∧ c ≤ 'F' then some (c.toNat - 'A'.toNat + 10)
  else none

/-- Four hexadecimal digits. -/
def readUnit : List Char → Option (Nat × List Char)
  | a :: b :: c :: d :: rest => do
    let a ← hexValue? a
    let b ← hexValue? b
    let c ← hexValue? c
    let d ← hexValue? d
    return (((a * 16 + b) * 16 + c) * 16 + d, rest)
  | _ => none

/-- The character after `\u`: one unit, or a high surrogate and the low one that has to follow. -/
def readEscapedUnit (cs : List Char) : Option (Char × List Char) := do
  let (high, rest) ← readUnit cs
  if 0xD800 ≤ high ∧ high < 0xDC00 then
    match rest with
    | '\\' :: 'u' :: rest =>
      let (low, rest) ← readUnit rest
      if 0xDC00 ≤ low ∧ low < 0xE000 then
        return (Char.ofNat (0x10000 + (high - 0xD800) * 0x400 + (low - 0xDC00)), rest)
      else none
    | _ => none
  else if 0xDC00 ≤ high ∧ high < 0xE000 then none
  else return (Char.ofNat high, rest)

/-- The character that a one-letter escape stands for. -/
def simpleEscape? : Char → Option Char
  | '"' => some '"'
  | '\\' => some '\\'
  | '/' => some '/'
  | 'b' => some '\x08'
  | 'f' => some '\x0c'
  | 'n' => some '\n'
  | 'r' => some '\r'
  | 't' => some '\t'
  | _ => none

/-- The characters of a string after its opening quote, and what follows the closing one. -/
def readChars : Nat → List Char → Option (List Char × List Char)
  | 0, _ => none
  | fuel + 1, cs =>
    match cs with
    | [] => none
    | '"' :: rest => some ([], rest)
    | '\\' :: 'u' :: rest => do
      let (c, rest) ← readEscapedUnit rest
      let (text, rest) ← readChars fuel rest
      return (c :: text, rest)
    | '\\' :: e :: rest => do
      let c ← simpleEscape? e
      let (text, rest) ← readChars fuel rest
      return (c :: text, rest)
    | c :: rest =>
      if c.toNat < 0x20 ∨ c = '\\' then none
      else do
        let (text, rest) ← readChars fuel rest
        return (c :: text, rest)

/-- The string after an opening quote. -/
def readText (cs : List Char) : Option (String × List Char) :=
  (readChars (cs.length + 1) cs).map fun (text, rest) => (String.ofList text, rest)

/-- The characters of a string that is not wanted: escapes need not make a character. -/
def skipText : Nat → List Char → Option (List Char)
  | 0, _ => none
  | fuel + 1, cs =>
    match cs with
    | [] => none
    | '"' :: rest => some rest
    | '\\' :: 'u' :: rest => do
      let (_, rest) ← readUnit rest
      skipText fuel rest
    | '\\' :: e :: rest => do
      let _ ← simpleEscape? e
      skipText fuel rest
    | c :: rest => if c.toNat < 0x20 ∨ c = '\\' then none else skipText fuel rest

/-- The given letters at the head of a text. -/
def readWord (word : List Char) (cs : List Char) : Option (List Char) :=
  if word.isPrefixOf cs then some (cs.drop word.length) else none

/-- The items of an array that is not empty, each read by `item`, up to the closing bracket. -/
def readItems (item : List Char → Option (Json × List Char)) :
    Nat → List Char → Option (List Json × List Char)
  | 0, _ => none
  | fuel + 1, cs => do
    let (v, rest) ← item cs
    match skipBlank rest with
    | ',' :: rest => do
      let (vs, rest) ← readItems item fuel rest
      return (v :: vs, rest)
    | ']' :: rest => return ([v], rest)
    | _ => none

/-- A key and the colon after it. -/
def readKey (cs : List Char) : Option (String × List Char) := do
  match skipBlank cs with
  | '"' :: rest =>
    let (key, rest) ← readText rest
    match skipBlank rest with
    | ':' :: rest => return (key, rest)
    | _ => none
  | _ => none

/-- The members of an object that is not empty, in the order of the text. -/
def readMembers (item : List Char → Option (Json × List Char)) :
    Nat → List Char → Option (List (String × Json) × List Char)
  | 0, _ => none
  | fuel + 1, cs => do
    let (key, rest) ← readKey cs
    let (v, rest) ← item rest
    match skipBlank rest with
    | ',' :: rest => do
      let (vs, rest) ← readMembers item fuel rest
      return ((key, v) :: vs, rest)
    | '}' :: rest => return ([(key, v)], rest)
    | _ => none

/-- The value at the head of a text, with room for `depth` arrays and objects inside one another. -/
def readValue : Nat → List Char → Option (Json × List Char)
  | depth, cs =>
    match skipBlank cs with
    | 'n' :: rest => (readWord ['u', 'l', 'l'] rest).map fun rest => (.null, rest)
    | 't' :: rest => (readWord ['r', 'u', 'e'] rest).map fun rest => (.bool true, rest)
    | 'f' :: rest => (readWord ['a', 'l', 's', 'e'] rest).map fun rest => (.bool false, rest)
    | '"' :: rest => (readText rest).map fun (text, rest) => (.string text, rest)
    | '[' :: rest =>
      match depth with
      | 0 => none
      | depth + 1 =>
        match skipBlank rest with
        | ']' :: rest => some (.array [], rest)
        | rest => (readItems (readValue depth) (rest.length + 1) rest).map fun (items, rest) =>
          (.array items, rest)
    | '{' :: rest =>
      match depth with
      | 0 => none
      | depth + 1 =>
        match skipBlank rest with
        | '}' :: rest => some (.object [], rest)
        | rest => (readMembers (readValue depth) (rest.length + 1) rest).map fun (members, rest) =>
          (ofMembers members, rest)
    | rest => do
      let (numeral, rest) ← Numeral.read rest
      let value ← numeral.value?
      return (value, rest)

/-- How many arrays and objects may be inside one another. -/
def depthLimit : Nat :=
  127

/-- The value that a text spells, with nothing but blanks around it. -/
def parse? (text : String) : Option Json := do
  let (value, rest) ← readValue depthLimit text.toList
  if (skipBlank rest).isEmpty then some value else none

/-- The rest after the items of an array that is not wanted. -/
def skipItems (item : List Char → Option (List Char)) : Nat → List Char → Option (List Char)
  | 0, _ => none
  | fuel + 1, cs => do
    let rest ← item cs
    match skipBlank rest with
    | ',' :: rest => skipItems item fuel rest
    | ']' :: rest => some rest
    | _ => none

/-- The rest after the members of an object that is not wanted. -/
def skipMembers (item : List Char → Option (List Char)) : Nat → List Char → Option (List Char)
  | 0, _ => none
  | fuel + 1, cs => do
    match skipBlank cs with
    | '"' :: rest =>
      let rest ← skipText (rest.length + 1) rest
      match skipBlank rest with
      | ':' :: rest =>
        let rest ← item rest
        match skipBlank rest with
        | ',' :: rest => skipMembers item fuel rest
        | '}' :: rest => some rest
        | _ => none
      | _ => none
    | _ => none

/-- The rest after a value that is not wanted, with room for `depth` levels. -/
def skipNested : Nat → List Char → Option (List Char)
  | depth, cs =>
    match skipBlank cs with
    | 'n' :: rest => readWord ['u', 'l', 'l'] rest
    | 't' :: rest => readWord ['r', 'u', 'e'] rest
    | 'f' :: rest => readWord ['a', 'l', 's', 'e'] rest
    | '"' :: rest => skipText (rest.length + 1) rest
    | '[' :: rest =>
      match depth with
      | 0 => none
      | depth + 1 =>
        match skipBlank rest with
        | ']' :: rest => some rest
        | rest => skipItems (skipNested depth) (rest.length + 1) rest
    | '{' :: rest =>
      match depth with
      | 0 => none
      | depth + 1 =>
        match skipBlank rest with
        | '}' :: rest => some rest
        | rest => skipMembers (skipNested depth) (rest.length + 1) rest
    | rest => (Numeral.read rest).map Prod.snd

/-- The rest after a value that is not wanted.  No value nests deeper than its text is long. -/
def skipValue (cs : List Char) : Option (List Char) :=
  skipNested cs.length cs

end GatewayClient.Json
