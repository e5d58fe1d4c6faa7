import Treewalk.Number

/-!
# JSON

A JSON value and its two texts: `Json.compact` without any blank, and `Json.pretty` with an item a
line, two blanks of indentation for each level, and `[]` for an empty list. The fields of an object
keep their order.
-/

namespace Treewalk

/-- A JSON value. Whole numbers that count something are kept apart from doubles: they have no
point and no exponent. -/
inductive Json where
  | null
  | natural (value : Nat)
  | number (value : Float)
  | string (value : String)
  | array (items : List Json)
  | object (fields : List (String × Json))

namespace Json

/-- A hexadecimal digit, in lower case. -/
def hexDigit (n : Nat) : Char := if n < 10 then Char.ofNat (48 + n) else Char.ofNat (87 + n)

/-- A character inside a string: quotes, backslashes and control characters are escaped. -/
def escape (c : Char) : List Char :=
  if c = '"' then ['\\', '"']
  else if c = '\\' then ['\\', '\\']
  else if c = '\n' then ['\\', 'n']
  else if c = '\r' then ['\\', 'r']
  else if c = '\t' then ['\\', 't']
  else if c.toNat = 8 then ['\\', 'b']
  else if c.toNat = 12 then ['\\', 'f']
  else if c.toNat < 32 then
    ['\\', 'u', '0', '0', hexDigit (c.toNat / 16), hexDigit (c.toNat % 16)]
  else [c]

/-- A string between quotes. -/
def quote (s : String) : String := String.ofList ('"' :: s.toList.flatMap escape ++ ['"'])

mutual

/-- The text without any blank outside strings. -/
def compact : Json → String
  | .null => "null"
  | .natural value => Nat.repr value
  | .number value => Number.json value
  | .string value => quote value
  | .array items => "[" ++ String.intercalate "," (compactItems items) ++ "]"
  | .object fields => "\x7b" ++ String.intercalate "," (compactFields fields) ++ "\x7d"

def compactItems : List Json → List String
  | [] => []
  | item :: rest => item.compact :: compactItems rest

def compactFields : List (String × Json) → List String
  | [] => []
  | (name, value) :: rest => (quote name ++ ":" ++ value.compact) :: compactFields rest

end

/-- A new line at a level. -/
def newLine (level : Nat) : String := String.ofList ('\n' :: List.replicate (2 * level) ' ')

/-- Texts between two brackets, each on a line of its own. -/
def enclose (opening closing : String) (level : Nat) (texts : List String) : String :=
  if texts.isEmpty then opening ++ closing
  else
    opening ++ newLine (level + 1) ++ String.intercalate ("," ++ newLine (level + 1)) texts ++
      newLine level ++ closing

mutual

/-- The text at a level of indentation, with an item a line. -/
def prettyAt (level : Nat) : Json → String
  | .null => "null"
  | .natural value => Nat.repr value
  | .number value => Number.json value
  | .string value => quote value
  | .array items => enclose "[" "]" level (prettyItems (level + 1) items)
  | .object fields => enclose "\x7b" "\x7d" level (prettyFields (level + 1) fields)

def prettyItems (level : Nat) : List Json → List String
  | [] => []
  | item :: rest => item.prettyAt level :: prettyItems level rest

def prettyFields (level : Nat) : List (String × Json) → List String
  | [] => []
  | (name, value) :: rest =>
    (quote name ++ ": " ++ value.prettyAt level) :: prettyFields level rest

end

/-- The text with an item a line. -/
def pretty (value : Json) : String := value.prettyAt 0

/-- A value under the one name that says what it is. -/
def tagged (name : String) (value : Json) : Json := .object [(name, value)]

/-- A value that may be missing. -/
def ofOption : Option Json → Json
  | none => .null
  | some value => value

end Json

end Treewalk
