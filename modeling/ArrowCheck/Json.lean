/-
This file defines JSON values and their text. Members of an object keep the
order in which they were put there. Two layouts are written: a compact one
without blanks and an indented one.
-/

import ArrowCheck.Numeric.Shortest

namespace ArrowCheck

/-- A JSON value. Whole numbers that count something are kept apart from numbers of the language,
since the two are written differently. -/
inductive Json where
  | null
  | bool (value : Bool)
  | nat (value : Nat)
  | number (value : Binary64)
  | string (value : String)
  | array (items : List Json)
  | object (members : List (String × Json))
deriving Inhabited

namespace Json

/-! ### Numbers -/

/-- Which numbers are written without an exponent: those whose first digit stands for a power of ten
between the two bounds. -/
structure NumberLayout where
  leastPlain : Int
  greatestPlain : Int

/-- Numbers are written plainly from `10 ^ (-5)` up to, but not including, `10 ^ 16`. -/
def layout : NumberLayout :=
  ⟨-5, 15⟩

/-- Zeros in a row. -/
def zeros (count : Nat) : String :=
  String.ofList (List.replicate count '0')

/-- Digits times a power of ten without an exponent, always with a fraction. -/
def plainText (digits : String) (power : Int) : String :=
  if 0 ≤ power then digits ++ zeros power.toNat ++ ".0"
  else
    let places := (-power).toNat
    let chars := digits.toList
    if places < chars.length then
      String.ofList (chars.take (chars.length - places)) ++ "." ++
        String.ofList (chars.drop (chars.length - places))
    else "0." ++ zeros (places - chars.length) ++ digits

/-- Digits with the point after the first one, and an exponent with its sign. -/
def exponentText (digits : String) (leading : Int) : String :=
  let fraction :=
    match digits.toList with
    | first :: second :: rest => String.ofList (first :: '.' :: second :: rest)
    | _ => digits
  fraction ++ "e" ++ (if leading < 0 then "-" else "+") ++ leading.natAbs.repr

/-- The shortest text of a finite magnitude. -/
def magnitudeText (rank : Nat) : String :=
  if rank = 0 then "0.0"
  else
    let (digits, power) := Decimal.shortest rank
    let leading := power + digits.repr.length - 1
    if layout.leastPlain ≤ leading && leading ≤ layout.greatestPlain then
      plainText digits.repr power
    else exponentText digits.repr leading

/-- The text of a number; what is not finite is written as `null`. -/
def numberText (number : Binary64) : String :=
  if number.isFinite then
    (if number.negative then "-" else "") ++ magnitudeText number.magnitude
  else "null"

/-! ### Strings -/

/-- A digit of base sixteen in lower case. -/
def hexDigit (value : Nat) : Char :=
  if value < 10 then Char.ofNat ('0'.toNat + value) else Char.ofNat ('a'.toNat + (value - 10))

/-- A character inside a quoted string. Quotes, backslashes and control characters are escaped, and
nothing else is. -/
def escape (char : Char) : List Char :=
  if char = '"' then ['\\', '"']
  else if char = '\\' then ['\\', '\\']
  else if char = '\x08' then ['\\', 'b']
  else if char = '\t' then ['\\', 't']
  else if char = '\n' then ['\\', 'n']
  else if char = '\x0c' then ['\\', 'f']
  else if char = '\r' then ['\\', 'r']
  else if char.toNat < 0x20 then
    ['\\', 'u', '0', '0', hexDigit (char.toNat / 16), hexDigit (char.toNat % 16)]
  else [char]

/-- A quoted string. -/
def quote (text : String) : String :=
  "\"" ++ String.ofList (text.toList.flatMap escape) ++ "\""

/-! ### Layouts -/

/-- The text of a boolean. -/
def boolText (value : Bool) : String :=
  if value then "true" else "false"

mutual

/-- The compact text of a value. -/
def compact : Json → String
  | .null => "null"
  | .bool value => boolText value
  | .nat value => value.repr
  | .number value => numberText value
  | .string value => quote value
  | .array items => "[" ++ ",".intercalate (compactItems items) ++ "]"
  | .object members => "\x7b" ++ ",".intercalate (compactMembers members) ++ "\x7d"

/-- The compact texts of the items of an array. -/
def compactItems : List Json → List String
  | [] => []
  | item :: rest => compact item :: compactItems rest

/-- The compact texts of the members of an object. -/
def compactMembers : List (String × Json) → List String
  | [] => []
  | (name, value) :: rest => (quote name ++ ":" ++ compact value) :: compactMembers rest

end

/-- A new line indented by two blanks for each level. -/
def newLine (depth : Nat) : String :=
  String.ofList ('\n' :: List.replicate (2 * depth) ' ')

/-- Parts between two brackets, each on a line of its own; without parts the brackets touch. -/
def bracketed (left right : String) (depth : Nat) (parts : List String) : String :=
  if parts.isEmpty then left ++ right
  else
    left ++ newLine (depth + 1) ++ ("," ++ newLine (depth + 1)).intercalate parts ++
      newLine depth ++ right

section

variable (showNumber : Binary64 → String)

mutual

/-- The indented text of a value that stands at a given depth, with given texts for numbers. -/
def indented (depth : Nat) : Json → String
  | .null => "null"
  | .bool value => boolText value
  | .nat value => value.repr
  | .number value => showNumber value
  | .string value => quote value
  | .array items => bracketed "[" "]" depth (indentedItems depth items)
  | .object members => bracketed "\x7b" "\x7d" depth (indentedMembers depth members)

/-- The indented texts of the items of an array. -/
def indentedItems (depth : Nat) : List Json → List String
  | [] => []
  | item :: rest => indented (depth + 1) item :: indentedItems depth rest

/-- The indented texts of the members of an object. -/
def indentedMembers (depth : Nat) : List (String × Json) → List String
  | [] => []
  | (name, value) :: rest =>
    (quote name ++ ": " ++ indented (depth + 1) value) :: indentedMembers depth rest

end

/-- The indented text of a value, with given texts for numbers. -/
def prettyWith (value : Json) : String :=
  indented showNumber 0 value

end

/-- The indented text of a value. -/
def pretty (value : Json) : String :=
  value.prettyWith numberText

end Json

end ArrowCheck
