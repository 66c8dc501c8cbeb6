import SignedPdf.Proofs.Dictionary.Entries
import SignedPdf.Proofs.Hex.Decoding
import SignedPdf.Proofs.Verification.Locality
import SignedPdf.Proofs.Verification.Records
import SignedPdf.Proofs.Verification.Signers

/-!
# Contents that are found and contents that decode

A look-up for contents takes digits and blanks, vertical tabs among them. A dictionary
keeps what was found without the ASCII blanks, which vertical tabs do not belong to,
and only digits decode. So a vertical tab is all that can be found and does not
decode.

* `exists_decode_iff` and `length_of_decode`: when the octets between the brackets
  decode, and to how many octets.
* `failureReason?_eq_iff`: an entry blames the contents exactly if there are none, or
  if they do not decode.
* `run_contents`: both together, for the entries of a report.
-/

namespace SignedPdf

/-! ## Octets between the brackets -/

namespace SignatureDictionary

open Hex (withoutBlanks)

/-- Tab, line feed, form feed, carriage return and space. -/
def asciiBlankOctets : Bytes := [0x09, 0x0A, 0x0C, 0x0D, 0x20]

theorem isAsciiBlank_iff {b : UInt8} : Text.isAsciiBlank b = true ↔ b ∈ asciiBlankOctets := by
  simp only [Text.isAsciiBlank, Bool.or_eq_true, beq_iff_eq, asciiBlankOctets, List.mem_cons,
    List.not_mem_nil, or_false, or_assoc]

/-- The vertical tab is the blank that is no ASCII blank. -/
theorem mem_blankOctets_iff {b : UInt8} :
    b ∈ blankOctets ↔ b ∈ asciiBlankOctets ∨ b = 0x0B := by
  rw [← isSeparator_iff, Text.isSeparator, Bool.or_eq_true, isAsciiBlank_iff, beq_iff_eq]

variable {window digits : Bytes}

theorem mem_withoutBlanks_iff {b : UInt8} :
    b ∈ withoutBlanks digits ↔ b ∈ digits ∧ b ∉ asciiBlankOctets := by
  rw [withoutBlanks, List.mem_filter, Bool.not_eq_true', ← Bool.not_eq_true, isAsciiBlank_iff]

/-- Contents are those of the leftmost entry. -/
theorem Leftmost.contents_ofWindow {captured : Option Bytes}
    (h : Leftmost .contents window captured) :
    (ofWindow window).contents = Bytes.asciiText (withoutBlanks (captured.getD [])) := by
  have htold := told_ofWindow .contents window
  rw [leftmost_iff.1 h] at htold
  exact Option.some.inj htold

/-- What is found has the form that a look-up wants. -/
theorem Leftmost.allows {k : Key} (h : Leftmost k window (some digits)) : k.Allows digits := by
  cases h with
  | found hstands _ =>
    obtain ⟨_, _, _, hallows, _⟩ := hstands
    exact hallows

theorem asciiText_withoutBlanks_eq_empty_iff :
    Bytes.asciiText (withoutBlanks digits) = "" ↔ ∀ b ∈ digits, b ∈ asciiBlankOctets := by
  rw [Bytes.asciiText, String.ofList_eq_empty_iff, List.map_eq_nil_iff,
    List.eq_nil_iff_forall_not_mem]
  simp only [mem_withoutBlanks_iff, not_and, not_not]

section Decoding

variable (h : ∀ b ∈ digits, isHexOctet b = true)

include h

/-- Other octets between the brackets than ASCII blanks are digits or vertical
tabs. -/
theorem isDigit_or_of_mem_withoutBlanks {b : UInt8} (hb : b ∈ withoutBlanks digits) :
    Hex.isDigit b = true ∨ b = 0x0B := by
  obtain ⟨hmem, hblank⟩ := mem_withoutBlanks_iff.1 hb
  rcases isHexOctet_iff.1 (h b hmem) with hdigit | hseparator
  · exact .inl (Hex.isDigit_iff.2 hdigit)
  · exact .inr ((mem_blankOctets_iff.1 hseparator).resolve_left hblank)

/-- They are what decoding looks at. -/
theorem significant_contents :
    Hex.significant (Bytes.asciiText (withoutBlanks digits)) = withoutBlanks digits := by
  refine Hex.significant_withoutBlanks fun b hb => ?_
  rcases isDigit_or_of_mem_withoutBlanks h hb with hdigit | rfl
  · exact Hex.toNat_lt_of_isDigit hdigit
  · decide

/-- They decode unless a vertical tab is among them. -/
theorem exists_decode_iff :
    (∃ octets, Hex.decode (Bytes.asciiText (withoutBlanks digits)) = .ok octets) ↔
      0x0B ∉ digits := by
  rw [Hex.exists_decode_eq_ok_iff, ← Hex.forall_isDigit_iff]
  show (∀ b ∈ Hex.significant (Bytes.asciiText (withoutBlanks digits)), _) ↔ _
  rw [significant_contents h]
  constructor
  · intro hall hmem
    have hno : (0x0B : UInt8) ∉ asciiBlankOctets := by decide
    exact absurd (hall 0x0B (mem_withoutBlanks_iff.2 ⟨hmem, hno⟩)) (by decide)
  · intro hno b hb
    refine (isDigit_or_of_mem_withoutBlanks h hb).resolve_right ?_
    rintro rfl
    exact hno (mem_withoutBlanks_iff.1 hb).1

/-- If they decode, then to half as many octets as there are digits. -/
theorem length_of_decode {octets : Bytes}
    (hdecode : Hex.decode (Bytes.asciiText (withoutBlanks digits)) = .ok octets) :
    octets.length = (digits.countP (· ∈ Hex.digitOctets) + 1) / 2 := by
  have hno : 0x0B ∉ digits := (exists_decode_iff h).1 ⟨octets, hdecode⟩
  have hdigits : withoutBlanks digits = digits.filter (· ∈ Hex.digitOctets) := by
    refine List.filter_congr fun b hb => ?_
    rw [Bool.eq_iff_iff, decide_eq_true_iff, ← Hex.isDigit_iff, Bool.not_eq_true']
    constructor
    · intro hblank
      have hmem : b ∈ withoutBlanks digits := List.mem_filter.2 ⟨hb, by simp [hblank]⟩
      refine (isDigit_or_of_mem_withoutBlanks h hmem).resolve_right ?_
      rintro rfl
      exact hno hb
    · exact Hex.isAsciiBlank_of_isDigit
  rw [Hex.decode_ok_length hdecode, significant_contents h, hdigits,
    List.countP_eq_length_filter]

end Decoding

/-! ## Contents of a window -/

/-- There are no contents if nothing is found, or only ASCII blanks. -/
theorem Leftmost.contents_eq_empty_iff {captured : Option Bytes}
    (h : Leftmost .contents window captured) :
    (ofWindow window).contents = "" ↔
      captured = none ∨ ∃ digits, captured = some digits ∧ ∀ b ∈ digits, b ∈ asciiBlankOctets := by
  rw [h.contents_ofWindow, asciiText_withoutBlanks_eq_empty_iff]
  cases captured <;> simp

/-- What is found decodes unless it holds a vertical tab, and gives at least one octet
unless it holds ASCII blanks only. -/
theorem Leftmost.exists_decode (h : Leftmost .contents window (some digits))
    (hsome : ¬ ∀ b ∈ digits, b ∈ asciiBlankOctets) (hno : 0x0B ∉ digits) :
    ∃ octets, Hex.decode (ofWindow window).contents = .ok octets ∧
      octets.length = (digits.countP (· ∈ Hex.digitOctets) + 1) / 2 ∧ 1 ≤ octets.length := by
  obtain ⟨_, hallows⟩ := h.allows
  obtain ⟨octets, hdecode⟩ := (exists_decode_iff hallows).2 hno
  have hlength := length_of_decode hallows hdecode
  have hdigit : 0 < digits.countP (· ∈ Hex.digitOctets) := by
    push Not at hsome
    obtain ⟨b, hb, hblank⟩ := hsome
    rcases isDigit_or_of_mem_withoutBlanks hallows (mem_withoutBlanks_iff.2 ⟨hb, hblank⟩) with
      hdigit | rfl
    · exact List.countP_pos_iff.2 ⟨b, hb, by simpa using Hex.isDigit_iff.1 hdigit⟩
    · exact absurd hb hno
  rw [h.contents_ofWindow]
  exact ⟨octets, hdecode, hlength, by omega⟩

end SignatureDictionary

/-! ## Reasons -/

namespace Verification

open SignatureDictionary

variable {v : Verifier} {now : Instant} {d : SignatureDictionary}

theorem contentsOf_eq_noContents_iff : contentsOf d = .error .noContents ↔ d.contents = "" := by
  rcases contents_cases d with hd | ⟨blob, hblob⟩ | ⟨hd, hno⟩
  · simp [contentsOf_of_empty hd, hd]
  · simp [contentsOf_eq_ok_iff.2 hblob, hblob.1]
  · simp [contentsOf_of_undecodable hd hno, hd]

theorem contentsOf_eq_undecodable_iff :
    contentsOf d = .error .undecodable ↔
      d.contents ≠ "" ∧ ∀ blob, Hex.decode d.contents = .ok blob → blob = [] := by
  rcases contents_cases d with hd | ⟨blob, hblob⟩ | ⟨hd, hno⟩
  · simp [contentsOf_of_empty hd, hd]
  · simp only [contentsOf_eq_ok_iff.2 hblob, reduceCtorEq, false_iff]
    rintro ⟨_, hno⟩
    exact hblob.2.2 (hno blob hblob.2.1)
  · simp only [contentsOf_of_undecodable hd hno, true_iff]
    exact ⟨hd, hno⟩

/-- A reason that blames the contents. -/
def Reason.IsOfContents (r : Reason) : Prop := r = .noContents ∨ r = .undecodable

/-- How the wording of a reason starts. -/
def Reason.start : Reason → List Char
  | .noContents => ['n', 'o']
  | .undecodable => ['c', 'o']
  | .extraction _ | .chain _ => ['c', 'e']

theorem Reason.take_message (r : Reason) : r.message.toList.take 2 = r.start := by
  cases r with
  | noContents => rfl
  | undecodable => rfl
  | extraction failure =>
    show ("certificate extraction failed: " ++ failure.message).toList.take 2 = _
    rw [String.toList_append]
    rfl
  | chain fault =>
    show ("certificate chain validation failed: " ++ fault.message).toList.take 2 = _
    rw [String.toList_append]
    rfl

/-- Reasons that blame the contents are told by their wording. -/
theorem Reason.IsOfContents.message_eq_iff {r : Reason} (hr : r.IsOfContents) {r' : Reason} :
    r'.message = r.message ↔ r' = r := by
  constructor
  · intro h
    have hstart : r'.start = r.start := by rw [← take_message, ← take_message, h]
    rcases hr with rfl | rfl <;> cases r' <;> first | rfl | simp [start] at hstart
  · rintro rfl
    rfl

/-- Such a reason is given exactly if the contents are refused for it. -/
theorem failureReason?_eq_iff (v : Verifier) (now : Instant) (d : SignatureDictionary)
    {r : Reason} (hr : r.IsOfContents) :
    (v.entry now d).failureReason? = some r.message ↔ contentsOf d = .error r := by
  rw [failureReason?_entry, sought]
  cases contentsOf d with
  | error reason => simp [hr.message_eq_iff]
  | ok blob =>
    -- What comes after the contents has reasons of its own.
    have hextraction : ∀ failure, Reason.extraction failure ≠ r := by
      rcases hr with rfl | rfl <;> simp
    have hchain : ∀ fault, Reason.chain fault ≠ r := by
      rcases hr with rfl | rfl <;> simp
    simp only [reduceCtorEq, iff_false]
    cases Extraction.extract v.strategies blob with
    | error failure => simp [hr.message_eq_iff, hextraction]
    | ok c =>
      simp only
      cases Chain.validate c v.anchors now with
      | ok trust => simp
      | error fault => simp [hr.message_eq_iff, hchain]

/-- Contents that are found are refused for a vertical tab and for nothing else. -/
theorem contentsOf_ofWindow_eq_undecodable_iff {window : Bytes} {captured : Option Bytes}
    (h : Leftmost .contents window captured) :
    contentsOf (ofWindow window) = .error .undecodable ↔
      ∃ digits, captured = some digits ∧ 0x0B ∈ digits := by
  rw [contentsOf_eq_undecodable_iff, ne_eq, h.contents_eq_empty_iff]
  cases captured with
  | none => simp
  | some digits =>
    simp only [reduceCtorEq, false_or, Option.some.injEq, exists_eq_left']
    constructor
    · rintro ⟨hsome, hnil⟩
      by_contra hno
      obtain ⟨octets, hdecode, _, hpos⟩ := h.exists_decode hsome hno
      simp [hnil octets hdecode] at hpos
    · intro htab
      refine ⟨fun hblank => absurd (hblank 0x0B htab) (by decide), fun blob hdecode => ?_⟩
      rw [h.contents_ofWindow] at hdecode
      exact absurd htab ((exists_decode_iff h.allows.2).1 ⟨blob, hdecode⟩)

/-! ## Entries of a report -/

/-- An entry is that of the window with the same number. -/
theorem exists_window_of_getElem? {document : Bytes} {o : Verifier.Outcome}
    (hscanner : v.scanner = .textual) (h : v.run document now = .ok o) {i : Nat} {e : Entry}
    (he : o.report.entries[i]? = some e) :
    ∃ window, (windows document)[i]? = some window ∧ e = v.entry now (ofWindow window) := by
  have hprefix : v.selected ((windows document).map ofWindow) <+:
      (windows document).map ofWindow := by
    rw [selected_eq]
    split
    · exact List.take_prefix _ _
    · exact List.prefix_rfl
  rw [Verifier.run_ok_entries h, hscanner, scan_textual, List.getElem?_map,
    Option.map_eq_some_iff] at he
  obtain ⟨d, hd, rfl⟩ := he
  obtain ⟨hi, rfl⟩ := List.getElem?_eq_some_iff.1 hd
  have hfound := List.prefix_iff_getElem?.1 hprefix i hi
  rw [List.getElem?_map, Option.map_eq_some_iff] at hfound
  obtain ⟨window, hwindow, hd'⟩ := hfound
  exact ⟨window, hwindow, by rw [hd']⟩

/-- **Only a vertical tab is found and does not decode.** An entry of a report belongs
to a window, and to the octets between the brackets of the leftmost contents in it, if
there are any. The entry tells that there are no contents exactly if none are found or
if nothing but ASCII blanks stands between the brackets, and it tells that they cannot
be decoded exactly if a vertical tab stands there. In all other cases they decode to
half as many octets as there are digits between the brackets, rounded up, and there is
at least one. -/
theorem run_contents {document : Bytes} {o : Verifier.Outcome} (hscanner : v.scanner = .textual)
    (h : v.run document now = .ok o) {i : Nat} {e : Entry}
    (he : o.report.entries[i]? = some e) :
    ∃ window captured, (windows document)[i]? = some window ∧
      e = v.entry now (ofWindow window) ∧ Leftmost .contents window captured ∧
      (e.failureReason? = some "no /Contents found in signature dictionary" ↔
        captured = none ∨
          ∃ digits, captured = some digits ∧ ∀ b ∈ digits, b ∈ asciiBlankOctets) ∧
      (e.failureReason? = some "could not decode signature contents" ↔
        ∃ digits, captured = some digits ∧ 0x0B ∈ digits) ∧
      ∀ digits, captured = some digits → ¬ (∀ b ∈ digits, b ∈ asciiBlankOctets) →
        0x0B ∉ digits →
        ∃ octets, Hex.decode (ofWindow window).contents = .ok octets ∧
          octets.length = (digits.countP (· ∈ Hex.digitOctets) + 1) / 2 ∧ 1 ≤ octets.length := by
  obtain ⟨window, hwindow, rfl⟩ := exists_window_of_getElem? hscanner h he
  have hleftmost : Leftmost .contents window (field? _ Key.contents.value? window) :=
    leftmost_iff.2 rfl
  refine ⟨window, _, hwindow, rfl, hleftmost, ?_, ?_, ?_⟩
  · have hreason := failureReason?_eq_iff v now (ofWindow window) (.inl rfl)
    rw [contentsOf_eq_noContents_iff, hleftmost.contents_eq_empty_iff] at hreason
    exact hreason
  · have hreason := failureReason?_eq_iff v now (ofWindow window) (.inr rfl)
    rw [contentsOf_ofWindow_eq_undecodable_iff hleftmost] at hreason
    exact hreason
  · intro digits hdigits
    rw [hdigits] at hleftmost
    exact hleftmost.exists_decode

/-- A document with two dictionaries. Between the brackets there is a vertical tab in
one of them, and nothing but blanks in the other. -/
def contentsSample : Bytes :=
  Bytes.ofText "%PDF-1.7 /Type/Sig/Contents<3\x0b0> /Type/Sig/Contents< \t>"

theorem run_contents_sample :
    ∃ o e e', ({ anchors := .empty } : Verifier).run contentsSample ⟨0, 0⟩ = .ok o ∧
      o.report.entries = [e, e'] ∧
      e.failureReason? = some "could not decode signature contents" ∧
      e'.failureReason? = some "no /Contents found in signature dictionary" := by
  obtain ⟨o, ho⟩ : ∃ o, ({ anchors := .empty } : Verifier).run contentsSample ⟨0, 0⟩ = .ok o :=
    Verifier.exists_run_eq_ok_iff.2 rfl
  have hfound : Scanner.textual.scan contentsSample = [{ contents := "3\x0b0" }, {}] := by decide
  have hwindows : (windows contentsSample).map (field? Key.contents.octets Key.contents.value?) =
      [some (Bytes.ofText "3\x0b0"), some (Bytes.ofText " \t")] := by decide
  have hentries := Verifier.run_ok_entries ho
  rw [hfound] at hentries
  have hcaptured : ∀ {i : Nat} {window : Bytes} {captured : Option Bytes},
      (windows contentsSample)[i]? = some window → Leftmost .contents window captured →
      [some (Bytes.ofText "3\x0b0"), some (Bytes.ofText " \t")][i]? = some captured := by
    intro i window captured hwindow hleftmost
    rw [← hwindows, List.getElem?_map, hwindow, Option.map_some, leftmost_iff.1 hleftmost]
  refine ⟨o, _, _, ho, hentries, ?_, ?_⟩
  · obtain ⟨_, _, hwindow, _, hleftmost, _, hundecodable, _⟩ :=
      run_contents rfl ho (i := 0) (by rw [hentries]; rfl)
    have hdigits := Option.some.inj (hcaptured hwindow hleftmost)
    exact hundecodable.2 ⟨_, hdigits.symm, by decide⟩
  · obtain ⟨_, _, hwindow, _, hleftmost, hnone, _⟩ :=
      run_contents rfl ho (i := 1) (by rw [hentries]; rfl)
    have hdigits := Option.some.inj (hcaptured hwindow hleftmost)
    have hblank : ∀ b ∈ Bytes.ofText " \t", b ∈ asciiBlankOctets := by
      intro b hb
      exact isAsciiBlank_iff.1 (List.all_eq_true.1 rfl b hb)
    exact hnone.2 (.inr ⟨_, hdigits.symm, hblank⟩)

end Verification

end SignedPdf
