import SignedPdf.Dictionary
import SignedPdf.Event

/-!
# Finding signature dictionaries

A signature dictionary is found by its marker: `/Type`, separators and `/Sig`.
Markers are found one after the other: the search for the next one goes on where
the marker before has ended. The window of a marker is the 4096 octets that start
at it, or what is left of the document.
-/

namespace SignedPdf

namespace SignatureDictionary

/-! ## Markers -/

/-- The first part of a marker. -/
def typeKey : Bytes := Bytes.ofText "/Type"

/-- The second part of a marker. -/
def signatureType : Bytes := Bytes.ofText "/Sig"

/-- The number of octets in the marker at the start, if one stands there. -/
def markerAt? (bs : Bytes) : Option Nat :=
  (Bytes.dropStart? typeKey bs).bind fun rest =>
    (Bytes.dropStart? signatureType (rest.dropWhile Text.isSeparator)).map fun _ =>
      typeKey.length + (rest.takeWhile Text.isSeparator).length + signatureType.length

/-- What is read at the markers of a document, one after the other, each with
its offset; `read` is given what is left of the document from the marker on. -/
def atMarkers {α : Type} (read : Bytes → α) (document : Bytes) : List (Nat × α) :=
  Search.apart (fun bs => (markerAt? bs).map fun size => (size, read bs)) document

/-- The offsets of the markers. -/
def markers (document : Bytes) : List Nat := (atMarkers (fun _ => ()) document).map Prod.fst

/-! ## Windows -/

/-- The number of octets in a window. -/
def windowSize : Nat := 4096

/-- The window at the start. -/
def windowOf (bs : Bytes) : Bytes := bs.take windowSize

/-- The windows of the markers, in order. -/
def windows (document : Bytes) : List Bytes := (atMarkers windowOf document).map Prod.snd

/-- The dictionaries of a document, in order: the entries of each window. -/
def dictionaries (document : Bytes) : List SignatureDictionary :=
  (atMarkers (fun bs => ofWindow (windowOf bs)) document).map Prod.snd

end SignatureDictionary

/-! ## Scanners -/

/-- A way of finding the signature dictionaries of a document. -/
structure Scanner where
  /-- The name under which events mention it. -/
  name : String
  /-- The dictionaries of a document, in order. -/
  scan : Bytes → List SignatureDictionary
  /-- What there is to tell about a scan. -/
  events : Bytes → List Event := fun _ => []

namespace Scanner

/-- Finds dictionaries by their markers in the plain octets of a document. -/
def textual : Scanner where
  name := "textual"
  scan := SignatureDictionary.dictionaries
  events document :=
    let offsets := SignatureDictionary.markers document
    offsets.map .markerFound ++ [.markersCounted offsets.length]

/-- Gives the same dictionaries whatever the document. -/
def fixed (dictionaries : List SignatureDictionary) : Scanner where
  name := "fixed"
  scan _ := dictionaries

end Scanner

end SignedPdf
