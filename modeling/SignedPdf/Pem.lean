import SignedPdf.Base64
import SignedPdf.Text.Blank
import SignedPdf.Text.Utf8

/-!
# Blocks of armoured text

A block is a label and octets. In armour it starts with a line that begins
`-----BEGIN ` and ends before a line that begins `-----END `; the lines between
them hold the octets in base 64. Lines end with a line feed and must be UTF-8,
blanks at the end of a line do not count, and lines outside blocks are passed
over.

* `read` reads the first block and hands back what follows its last line.
* `blocks` reads all blocks up to the first fault.
* `readFrom_line`: lines are taken one by one, and a line matters only through
  `takeLine`.
-/

namespace SignedPdf.Pem

/-- A label and octets. -/
structure Block where
  label : String
  contents : Bytes
deriving DecidableEq, Repr

/-! ## Faults -/

/-- Why a block could not be read. -/
inductive Fault where
  /-- No line starts a block. -/
  | missingHeader
  /-- The first line of a block does not close its label. -/
  | invalidHeader
  /-- No line ends the block. -/
  | incomplete
  /-- The lines of a block are not base 64. -/
  | notBase64
  /-- A line is not UTF-8. -/
  | notText
deriving DecidableEq, Repr

namespace Fault

/-- The fault in words. -/
def message : Fault → String
  | .missingHeader => "missing header"
  | .invalidHeader => "invalid header"
  | .incomplete => "incomplete PEM"
  | .notBase64 => "base64 decode error"
  | .notText => "IO error: stream did not contain valid UTF-8"

/-- The fault as a name with its details. -/
def name : Fault → String
  | .missingHeader => "MissingHeader"
  | .invalidHeader => "InvalidHeader"
  | .incomplete => "IncompletePEM"
  | .notBase64 => "Base64DecodeError"
  | .notText =>
    "IOError(Error \x7b kind: InvalidData, message: \"stream did not contain valid UTF-8\" \x7d)"

end Fault

/-! ## Marks -/

/-- Closes a label. -/
def dashes : List Char := "-----".toList

/-- Starts the first line of a block. -/
def beginMark : List Char := "-----BEGIN ".toList

/-- Starts the line after a block. -/
def endMark : List Char := "-----END ".toList

/-- What follows `start`, if the line begins with it. -/
def afterMark? : (start : List Char) → List Char → Option (List Char)
  | [], cs => some cs
  | _ :: _, [] => none
  | s :: start, c :: cs => if s = c then afterMark? start cs else none

/-- Whether dashes stand somewhere on the line. -/
def hasDashes : List Char → Bool
  | [] => false
  | c :: cs => (afterMark? dashes (c :: cs)).isSome || hasDashes cs

/-- The label that starts a line: it ends before the first dash, but the line
must hold all five dashes that close a label. -/
def label? (cs : List Char) : Option String :=
  if hasDashes cs then some (String.ofList (cs.takeWhile (· != '-'))) else none

/-! ## Reading -/

/-- A block whose end has not been reached. -/
structure Opened where
  label : String
  /-- The digits on each line, the last line first. -/
  digits : List (List Char) := []
deriving DecidableEq, Repr

/-- The block, when its end has been reached. -/
def Opened.close (o : Opened) : Except Fault Block :=
  match Base64.decode? o.digits.reverse.flatten with
  | some contents => .ok ⟨o.label, contents⟩
  | none => .error .notBase64

/-- What a line leads to. -/
inductive Progress where
  /-- The line ends a block. -/
  | done (b : Block)
  /-- Reading goes on, outside a block or inside one. -/
  | more (o : Option Opened)
  | failed (fault : Fault)
deriving DecidableEq, Repr

/-- Takes the characters of a line outside a block. -/
def takeOutside (cs : List Char) : Progress :=
  match afterMark? beginMark cs with
  | none => .more none
  | some cs =>
    match label? cs with
    | none => .failed .invalidHeader
    | some label => .more (some { label })

/-- Takes the characters of a line inside a block. -/
def takeInside (o : Opened) (cs : List Char) : Progress :=
  match afterMark? endMark cs with
  | none => .more (some { o with digits := Text.trimEnd cs :: o.digits })
  | some _ =>
    match o.close with
    | .ok b => .done b
    | .error fault => .failed fault

/-- Takes a line. -/
def takeLine (o : Option Opened) (line : Bytes) : Progress :=
  match Utf8.decode? line with
  | none => .failed .notText
  | some cs =>
    match o with
    | none => takeOutside cs
    | some o => takeInside o cs

/-- The fault at the end of the input. -/
def endFault : Option Opened → Fault
  | none => .missingHeader
  | some _ => .incomplete

/-- The octet that ends a line. -/
def lineFeed : UInt8 := 0x0A

/-- Reads on; `line` holds the start of the present line, last octet first.
What follows the last line feed is a line if it is not empty. -/
def readFrom (o : Option Opened) (line : Bytes) : Bytes → Except Fault (Block × Bytes)
  | [] =>
    if line.isEmpty then .error (endFault o)
    else
      match takeLine o line.reverse with
      | .done b => .ok (b, [])
      | .more o => .error (endFault o)
      | .failed fault => .error fault
  | b :: bs =>
    if b = lineFeed then
      match takeLine o line.reverse with
      | .done b => .ok (b, bs)
      | .more o => readFrom o [] bs
      | .failed fault => .error fault
    else readFrom o (b :: line) bs

/-- The first block, and what follows its last line. -/
def read (bs : Bytes) : Except Fault (Block × Bytes) := readFrom none [] bs

/-- A line that is ended by a line feed is taken, and reading goes on after
it. -/
theorem readFrom_line {o : Option Opened} {line : Bytes} (h : lineFeed ∉ line) (before bs : Bytes) :
    readFrom o before (line ++ lineFeed :: bs) =
      match takeLine o (before.reverse ++ line) with
      | .done b => .ok (b, bs)
      | .more o => readFrom o [] bs
      | .failed fault => .error fault := by
  induction line generalizing before with
  | nil => simp [readFrom]
  | cons b line ih =>
    rw [List.mem_cons, not_or] at h
    have hb : b ≠ lineFeed := fun h' => h.1 h'.symm
    rw [List.cons_append, readFrom, if_neg hb, ih h.2]
    simp

theorem readFrom_length {o : Option Opened} {line bs rest : Bytes} {b : Block}
    (h : readFrom o line bs = .ok (b, rest)) : rest.length < line.length + bs.length := by
  induction bs generalizing o line with
  | nil =>
    cases line with
    | nil => simp [readFrom] at h
    | cons x line =>
      simp only [readFrom, List.isEmpty_cons, Bool.false_eq_true, if_false] at h
      split at h
      · cases h
        simp
      · cases h
      · cases h
  | cons x bs ih =>
    simp only [readFrom] at h
    simp only [List.length_cons]
    split at h
    · split at h
      · cases h
        omega
      · have := ih h
        simp only [List.length_nil] at this
        omega
      · cases h
    · have := ih h
      simp only [List.length_cons] at this
      omega

/-- A block leaves less than there was. -/
theorem read_length {bs rest : Bytes} {b : Block} (h : read bs = .ok (b, rest)) :
    rest.length < bs.length := by
  have := readFrom_length h
  simpa using this

/-- The blocks before the first fault, and the fault; an end without a further
block is none. -/
def blocks (bs : Bytes) : List Block × Option Fault :=
  match _h : read bs with
  | .ok (b, rest) =>
    let more := blocks rest
    (b :: more.1, more.2)
  | .error .missingHeader => ([], none)
  | .error fault => ([], some fault)
termination_by bs.length
decreasing_by exact read_length _h

/-! ## Writing -/

/-- The digits on a line. -/
def lineWidth : Nat := 64

/-- Cuts digits into lines, each with a line feed. -/
def wrapped (cs : List Char) : List Char :=
  if _h : cs = [] then []
  else cs.take lineWidth ++ '\n' :: wrapped (cs.drop lineWidth)
termination_by cs.length
decreasing_by
  have := List.length_pos_iff.2 _h
  simp only [List.length_drop, lineWidth]
  omega

/-- A block in armour. -/
def Block.armoured (b : Block) : String :=
  "-----BEGIN " ++ b.label ++ "-----\n" ++ String.ofList (wrapped (Base64.encode b.contents)) ++
    "-----END " ++ b.label ++ "-----\n"

end SignedPdf.Pem
