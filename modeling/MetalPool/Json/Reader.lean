import MetalPool.Json.Basic
import MetalPool.Json.Magnitude
import MetalPool.Text.Bytes
import MetalPool.Text.Decimal
/-!
# JSON text to value

`Json.parse?` reads one value with blanks around it. It is strict: no trailing
comma, no leading zero, no control character inside a string. A string with an
unpaired surrogate, a number that is too large and an array or object inside too
many others are read as `garbled`.
-/

namespace MetalPool.Json

def isSpace (c : Char) : Bool := c == ' ' || c == '\n' || c == '\t' || c == '\r'

def skipSpaces (cs : List Char) : List Char := cs.dropWhile isSpace

/-! ## Strings -/

/-- The number that four hexadecimal digits write. -/
def hex4? (a b c d : Char) : Option Nat := do
  let ab := (← Bytes.hexDigit? a) * 16 + (← Bytes.hexDigit? b)
  let cd := (← Bytes.hexDigit? c) * 16 + (← Bytes.hexDigit? d)
  return ab * 256 + cd

/-- What a backslash and one character stand for. -/
def escaped? : Char → Option Char
  | '"' => some '"'
  | '\\' => some '\\'
  | '/' => some '/'
  | 'b' => some '\x08'
  | 'f' => some '\x0c'
  | 'n' => some '\n'
  | 'r' => some '\r'
  | 't' => some '\t'
  | _ => none

def isLeading (n : Nat) : Bool := 0xD800 ≤ n && n ≤ 0xDBFF
def isTrailing (n : Nat) : Bool := 0xDC00 ≤ n && n ≤ 0xDFFF

/-- The text a list of UTF-16 units spells; none if a surrogate stands alone. -/
def ofUnits? : List Nat → Option (List Char)
  | [] => some []
  | [u] => if isLeading u || isTrailing u then none else some [Char.ofNat u]
  | u :: v :: rest =>
    if isLeading u then
      if isTrailing v then
        (ofUnits? rest).map (Char.ofNat (0x10000 + (u - 0xD800) * 0x400 + (v - 0xDC00)) :: ·)
      else none
    else if isTrailing u then none
    else (ofUnits? (v :: rest)).map (Char.ofNat u :: ·)

/-- Pieces of a string as written: characters, and units given by number. -/
inductive Piece where
  | char (c : Char)
  | unit (n : Nat)

/-- The text of the pieces: numbered units that stand together are read together. -/
def ofPieces? (units : List Nat) : List Piece → Option (List Char)
  | [] => ofUnits? units.reverse
  | .unit n :: rest => ofPieces? (n :: units) rest
  | .char c :: rest => do return (← ofUnits? units.reverse) ++ c :: (← ofPieces? [] rest)

/-- The pieces of a string up to its closing quote, and the text after it. -/
def readPieces? : List Char → Option (List Piece × List Char)
  | [] => none
  | '"' :: rest => some ([], rest)
  | '\\' :: 'u' :: a :: b :: c :: d :: rest => do
    let n ← hex4? a b c d
    let (pieces, rest) ← readPieces? rest
    return (.unit n :: pieces, rest)
  | '\\' :: e :: rest => do
    let c ← escaped? e
    let (pieces, rest) ← readPieces? rest
    return (.char c :: pieces, rest)
  | c :: rest =>
    if c.toNat < 0x20 || c == '\\' then none
    else do
      let (pieces, rest) ← readPieces? rest
      return (.char c :: pieces, rest)

/-- A string after its opening quote: its text, none where it spells none. -/
def readString? (cs : List Char) : Option (Option String × List Char) := do
  let (pieces, rest) ← readPieces? cs
  return ((ofPieces? [] pieces).map String.ofList, rest)

/-! ## Numbers -/

/-- The whole part: a zero alone, or digits that start with another. -/
def readWhole? (cs : List Char) : Option (List Char × List Char) :=
  match cs.takeWhile Text.isDigit, cs.dropWhile Text.isDigit with
  | [], _ => none
  | ['0'], rest => some (['0'], rest)
  | '0' :: _, _ => none
  | digits, rest => some (digits, rest)

/-- A point and digits, if there is a point. -/
def readFraction? : List Char → Option (List Char × List Char)
  | '.' :: cs =>
    match cs.takeWhile Text.isDigit with
    | [] => none
    | digits => some ('.' :: digits, cs.dropWhile Text.isDigit)
  | cs => some ([], cs)

/-- An exponent, if there is one: as written, and its value. -/
def readExponent? : List Char → Option (List Char × Int × List Char)
  | [] => some ([], 0, [])
  | e :: cs =>
    if e == 'e' || e == 'E' then
      let (sign, cs) := match cs with
        | '+' :: cs => (['+'], cs)
        | '-' :: cs => (['-'], cs)
        | cs => ([], cs)
      match cs.takeWhile Text.isDigit with
      | [] => none
      | digits =>
        let n : Int := Text.valueOf digits
        some (e :: sign ++ digits, if sign = ['-'] then -n else n, cs.dropWhile Text.isDigit)
    else some ([], 0, e :: cs)

/-- The integer of a sign and digits, if it fits 64 bits. A negative zero is none. -/
def integer? (negative : Bool) (whole : List Char) : Option Int :=
  let n := Text.valueOf whole
  if negative then if 0 < n && n ≤ 9223372036854775808 then some (-(n : Int)) else none
  else if n < 18446744073709551616 then some n
  else none

def readNumber? (cs : List Char) : Option (Json × List Char) := do
  let (sign, cs) := match cs with
    | '-' :: cs => (['-'], cs)
    | cs => ([], cs)
  let (whole, cs) ← readWhole? cs
  let (fraction, cs) ← readFraction? cs
  let (exponent, power, rest) ← readExponent? cs
  let decimal : Json :=
    if isTooLarge whole (fraction.drop 1) power then .garbled
    else .decimal (.ofList (sign ++ whole ++ fraction ++ exponent))
  if fraction.isEmpty && exponent.isEmpty then
    return ((integer? (!sign.isEmpty) whole).elim decimal .int, rest)
  else return (decimal, rest)

/-! ## Values

Each call of `readValue?`, `readItems?` or `readMembers?` inside another comes
after at least one character was read, so the number of characters bounds the
nesting: it is the fuel `parse?` starts with. `room` counts the arrays and objects
that may still stand inside each other. -/

mutual

def readValue? : Nat → Nat → List Char → Option (Json × List Char)
  | 0, _, _ => none
  | fuel + 1, room, cs =>
    match cs with
    | '"' :: rest => do
      let (text, rest) ← readString? rest
      return (text.elim .garbled .str, rest)
    | '[' :: rest => do
      let (items, rest) ← match skipSpaces rest with
        | ']' :: rest => some ([], rest)
        | rest => readItems? fuel (room - 1) rest
      return (if room = 0 then .garbled else .arr items, rest)
    | '{' :: rest => do
      let (members, rest) ← match skipSpaces rest with
        | '}' :: rest => some (some [], rest)
        | rest => readMembers? fuel (room - 1) rest
      return (if room = 0 then .garbled else members.elim .garbled .obj, rest)
    | 'n' :: 'u' :: 'l' :: 'l' :: rest => some (.null, rest)
    | 't' :: 'r' :: 'u' :: 'e' :: rest => some (.bool true, rest)
    | 'f' :: 'a' :: 'l' :: 's' :: 'e' :: rest => some (.bool false, rest)
    | cs => readNumber? cs

/-- Items of an array, the first of them at the head of the text. -/
def readItems? : Nat → Nat → List Char → Option (List Json × List Char)
  | 0, _, _ => none
  | fuel + 1, room, cs => do
    let (item, rest) ← readValue? fuel room cs
    match skipSpaces rest with
    | ',' :: rest =>
      let (items, rest) ← readItems? fuel room (skipSpaces rest)
      return (item :: items, rest)
    | ']' :: rest => return ([item], rest)
    | _ => none

/-- Members of an object, the first name at the head of the text; none in place
of the list where a name spells no text. -/
def readMembers? : Nat → Nat → List Char → Option (Option (List (String × Json)) × List Char)
  | 0, _, _ => none
  | fuel + 1, room, cs =>
    match cs with
    | '"' :: rest => do
      let (name, rest) ← readString? rest
      match skipSpaces rest with
      | ':' :: rest =>
        let (value, rest) ← readValue? fuel room (skipSpaces rest)
        let first := name.map fun name => (name, value)
        match skipSpaces rest with
        | ',' :: rest =>
          let (members, rest) ← readMembers? fuel room (skipSpaces rest)
          return (first.bind fun m => members.map (m :: ·), rest)
        | '}' :: rest => return (first.map fun m => [m], rest)
        | _ => none
      | _ => none
    | _ => none

end

/-- How many arrays and objects may stand inside each other. -/
def maxDepth : Nat := 127

/-- The one value that the text holds. -/
def parse? (text : String) : Option Json :=
  let cs := skipSpaces text.toList
  match readValue? (2 * cs.length + 1) maxDepth cs with
  | some (j, rest) => if (skipSpaces rest).isEmpty then some j else none
  | none => none

end MetalPool.Json
