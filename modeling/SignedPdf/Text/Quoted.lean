import SignedPdf.Bytes

/-!
# Quoted characters and names

Messages show a character between apostrophes. The usual control characters,
the apostrophe and the backslash have two-character escapes; every other
character of the first 256 that leaves no mark on paper is written by its code
point. Lists of names are shown between brackets.
-/

namespace SignedPdf.Text

/-! ## Characters -/

/-- The lower-case hexadecimal digits of a number, without leading zeros. -/
def hexNumeral (n : Nat) : String := String.ofList (Nat.toDigits 16 n)

/-- The characters below 256 that leave no mark: the controls, the no-break
space and the soft hyphen. -/
def isInvisible (n : Nat) : Bool :=
  n < 0x20 || (0x7F ≤ n && n ≤ 0xA0) || n == 0xAD

/-- The quoted form of the character whose code point is the octet. -/
def quotedOctet (b : UInt8) : String :=
  let n := b.toNat
  let shown :=
    if n = 0 then "\\0"
    else if n = 0x09 then "\\t"
    else if n = 0x0A then "\\n"
    else if n = 0x0D then "\\r"
    else if n = 0x27 then "\\'"
    else if n = 0x5C then "\\\\"
    else if isInvisible n then "\\u\x7b" ++ hexNumeral n ++ "\x7d"
    else String.singleton (Char.ofNat n)
  "'" ++ shown ++ "'"

/-! ## Names -/

/-- A name between quotation marks; names are plain words. -/
def quotedName (name : String) : String := "\"" ++ name ++ "\""

/-- A list of names between brackets. -/
def quotedNames (names : List String) : String :=
  "[" ++ String.intercalate ", " (names.map quotedName) ++ "]"

end SignedPdf.Text
