import SignedPdf.Text.Quoted

/-!
# JSON

Values of JSON with objects whose members are ordered, and two ways of writing
them: on one line without blanks, and over several lines with an indent of two
blanks for each level. Strings are written with the short escapes of JSON; all
other characters below U+0020 are written by their code point, and every other
character stands for itself.
-/

namespace SignedPdf

/-- A value of JSON; numbers are natural numbers. -/
inductive Json where
  | null
  | bool (value : Bool)
  | number (value : Nat)
  | string (value : String)
  | array (items : List Json)
  | object (members : List (String × Json))
deriving Repr

namespace Json

/-! ## Strings -/

/-- A character within quotation marks. -/
def escapedChar (c : Char) : List Char :=
  if c = '"' then ['\\', '"']
  else if c = '\\' then ['\\', '\\']
  else if c = '\x08' then ['\\', 'b']
  else if c = '\x0c' then ['\\', 'f']
  else if c = '\n' then ['\\', 'n']
  else if c = '\r' then ['\\', 'r']
  else if c = '\t' then ['\\', 't']
  else if c.toNat < 0x20 then
    ['\\', 'u', '0', '0', Bytes.hexDigit (c.toNat / 16), Bytes.hexDigit (c.toNat % 16)]
  else [c]

/-- A text within quotation marks. -/
def quoted (s : String) : String := "\"" ++ String.ofList (s.toList.flatMap escapedChar) ++ "\""

/-- An optional text; its absence is `null`. -/
def ofOption : Option String → Json
  | some s => .string s
  | none => .null

/-! ## On one line -/

mutual

/-- Appends the value on one line. -/
def compactTo (out : String) : Json → String
  | .null => out ++ "null"
  | .bool value => out ++ toString value
  | .number value => out ++ toString value
  | .string value => out ++ quoted value
  | .array items => compactItemsTo (out ++ "[") items ++ "]"
  | .object members => compactMembersTo (out ++ "\x7b") members ++ "\x7d"

/-- Appends values with commas between them. -/
def compactItemsTo (out : String) : List Json → String
  | [] => out
  | [j] => compactTo out j
  | j :: k :: js => compactItemsTo (compactTo out j ++ ",") (k :: js)

/-- Appends members with commas between them. -/
def compactMembersTo (out : String) : List (String × Json) → String
  | [] => out
  | [(key, j)] => compactTo (out ++ quoted key ++ ":") j
  | (key, j) :: m :: ms =>
    compactMembersTo (compactTo (out ++ quoted key ++ ":") j ++ ",") (m :: ms)

end

/-- The value on one line. -/
def compact (j : Json) : String := compactTo "" j

/-! ## Over several lines -/

/-- A new line at a level. -/
def newLine (level : Nat) : String := "\n" ++ String.ofList (List.replicate (2 * level) ' ')

mutual

/-- Appends the value over several lines; what it holds stands one level
deeper. -/
def prettyTo (out : String) (level : Nat) : Json → String
  | .null => out ++ "null"
  | .bool value => out ++ toString value
  | .number value => out ++ toString value
  | .string value => out ++ quoted value
  | .array [] => out ++ "[]"
  | .array (j :: js) => prettyItemsTo (out ++ "[") (level + 1) (j :: js) ++ newLine level ++ "]"
  | .object [] => out ++ "\x7b\x7d"
  | .object (m :: ms) =>
    prettyMembersTo (out ++ "\x7b") (level + 1) (m :: ms) ++ newLine level ++ "\x7d"

/-- Appends values, each on a line of its own. -/
def prettyItemsTo (out : String) (level : Nat) : List Json → String
  | [] => out
  | [j] => prettyTo (out ++ newLine level) level j
  | j :: k :: js => prettyItemsTo (prettyTo (out ++ newLine level) level j ++ ",") level (k :: js)

/-- Appends members, each on a line of its own. -/
def prettyMembersTo (out : String) (level : Nat) : List (String × Json) → String
  | [] => out
  | [(key, j)] => prettyTo (out ++ newLine level ++ quoted key ++ ": ") level j
  | (key, j) :: m :: ms =>
    prettyMembersTo (prettyTo (out ++ newLine level ++ quoted key ++ ": ") level j ++ ",") level
      (m :: ms)

end

/-- The value over several lines. -/
def pretty (j : Json) : String := prettyTo "" 0 j

end Json

end SignedPdf
