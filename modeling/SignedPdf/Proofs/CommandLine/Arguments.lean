import SignedPdf.CommandLine.Arguments
import SignedPdf.Steps

/-!
# Bundles among the arguments

The options that name bundles can be taken out of a command line: what is left is
understood, or not, as the whole command line is, and asks for the same but for the
bundles.

* `Arguments.parse_eq`: a command line, its other arguments and its bundles.
* `Arguments.withCertificates_iff`: when certificates are asked for.
-/

namespace SignedPdf

namespace CommandLine

/-! ## Taking bundles out -/

/-- The arguments without the options that name bundles, and without the paths after
them. An option that no path follows is kept. -/
def withoutBundles : List String → List String
  | [] => []
  | argument :: path :: rest =>
    if argument = "--anchors" then withoutBundles rest
    else argument :: withoutBundles (path :: rest)
  | [argument] => [argument]

/-- The paths of the bundles that are named, in order. -/
def bundlePaths : List String → List String
  | argument :: path :: rest =>
    if argument = "--anchors" then path :: bundlePaths rest else bundlePaths (path :: rest)
  | _ => []

theorem withoutBundles_option (path : String) (rest : List String) :
    withoutBundles ("--anchors" :: path :: rest) = withoutBundles rest := by
  simp [withoutBundles]

theorem bundlePaths_option (path : String) (rest : List String) :
    bundlePaths ("--anchors" :: path :: rest) = path :: bundlePaths rest := by
  simp [bundlePaths]

theorem withoutBundles_cons {argument : String} (h : argument ≠ "--anchors")
    (rest : List String) : withoutBundles (argument :: rest) = argument :: withoutBundles rest := by
  cases rest with
  | nil => rfl
  | cons path rest => rw [withoutBundles, if_neg h]

theorem bundlePaths_cons {argument : String} (h : argument ≠ "--anchors") (rest : List String) :
    bundlePaths (argument :: rest) = bundlePaths rest := by
  cases rest with
  | nil => rfl
  | cons path rest => rw [bundlePaths, if_neg h]

/-! ## Reading without bundles -/

/-- The draft with other bundles. -/
def Draft.withBundles (d : Draft) (paths : List String) : Draft := { d with bundles := paths }

/-- An argument that is no option is the document, which is named once. -/
theorem parseFrom_cons {argument : String} (hbundle : argument ≠ "--anchors")
    (hsystem : argument ≠ "--no-system") (hpretty : argument ≠ "--pretty")
    (hpem : argument ≠ "--pem") (d : Draft) (rest : List String) :
    parseFrom d (argument :: rest) =
      if argument.startsWith "-" then .error (.unknownOption argument)
      else
        match d.document with
        | some _ => .error (.unexpectedArgument argument)
        | none => parseFrom { d with document := some argument } rest :=
  parseFrom.eq_7 d argument rest (fun h _ => hbundle h) (fun _ _ h _ => hbundle h) hsystem hpretty
    hpem

/-- Neither of the two forms of an option with a path, so no such option. -/
theorem ne_anchors {argument : String} {rest : List String}
    (hlast : argument = "--anchors" → rest = [] → False)
    (hpath : ∀ path rest', argument = "--anchors" → rest = path :: rest' → False) :
    argument ≠ "--anchors" := by
  intro h
  cases rest with
  | nil => exact hlast h rfl
  | cons path rest => exact hpath path rest h rfl

/-- Reading on from a draft, the bundles may be put in afterwards. -/
theorem parseFrom_eq (d : Draft) (arguments : List String) :
    parseFrom d arguments =
      (parseFrom (d.withBundles []) (withoutBundles arguments)).map fun e =>
        e.withBundles ((bundlePaths arguments).reverse ++ d.bundles) := by
  -- The draft collects bundles on the way, so the other side starts without any.
  induction d, arguments using parseFrom.induct with
  | case1 d => rfl
  | case2 d => rfl
  | case3 d path rest ih =>
    rw [parseFrom, ih, withoutBundles_option, bundlePaths_option, List.reverse_cons,
      List.append_assoc]
    rfl
  | case4 d rest ih | case5 d rest ih | case6 d rest ih =>
    rw [withoutBundles_cons (by decide), bundlePaths_cons (by decide), parseFrom, parseFrom, ih]
    rfl
  | case7 d argument rest hlast hpath hsystem hpretty hpem hoption =>
    have hbundle := ne_anchors hlast hpath
    rw [withoutBundles_cons hbundle, parseFrom_cons hbundle hsystem hpretty hpem,
      parseFrom_cons hbundle hsystem hpretty hpem, if_pos hoption, if_pos hoption]
    rfl
  | case8 d argument rest hlast hpath hsystem hpretty hpem hoption document hdocument =>
    have hbundle := ne_anchors hlast hpath
    rw [withoutBundles_cons hbundle, parseFrom_cons hbundle hsystem hpretty hpem,
      parseFrom_cons hbundle hsystem hpretty hpem, if_neg hoption, if_neg hoption]
    simp only [Draft.withBundles, hdocument]
    rfl
  | case9 d argument rest hlast hpath hsystem hpretty hpem hoption hdocument ih =>
    have hbundle := ne_anchors hlast hpath
    rw [withoutBundles_cons hbundle, bundlePaths_cons hbundle,
      parseFrom_cons hbundle hsystem hpretty hpem, parseFrom_cons hbundle hsystem hpretty hpem,
      if_neg hoption, if_neg hoption]
    simp only [Draft.withBundles, hdocument]
    rw [ih]
    rfl

theorem Draft.finish_withBundles (d : Draft) (paths : List String) :
    (d.withBundles paths).finish = d.finish.map fun a => { a with bundles := paths.reverse } := by
  simp only [finish, withBundles]
  cases d.document with
  | none => rfl
  | some document => rfl

/-- **A command line without its bundles.** Its other arguments are understood
exactly if it is, and ask for the same document and the same switches; the bundles
are those that it names, in order. -/
theorem Arguments.parse_eq (arguments : List String) :
    Arguments.parse arguments =
      (Arguments.parse (withoutBundles arguments)).map fun a =>
        { a with bundles := bundlePaths arguments } := by
  have hread := parseFrom_eq {} arguments
  have hempty : ({} : Draft).withBundles [] = {} := rfl
  simp only [hempty, List.append_nil] at hread
  simp only [Arguments.parse, hread]
  cases parseFrom {} (withoutBundles arguments) with
  | error fault => rfl
  | ok d =>
    have hfinish := d.finish_withBundles (bundlePaths arguments).reverse
    rw [List.reverse_reverse] at hfinish
    exact hfinish

/-! ## Asking for certificates -/

/-- Certificates are asked for by the draft or by one of the arguments. -/
theorem withCertificates_of_parseFrom {d e : Draft} {arguments : List String}
    (h : parseFrom d arguments = .ok e) :
    e.withCertificates = true ↔ d.withCertificates = true ∨ "--pem" ∈ withoutBundles arguments := by
  induction d, arguments using parseFrom.induct with
  | case1 d =>
    cases h
    simp [withoutBundles]
  | case2 d => cases h
  | case3 d path rest ih =>
    rw [withoutBundles_option]
    exact ih h
  | case4 d rest ih | case5 d rest ih | case6 d rest ih =>
    rw [withoutBundles_cons (by decide), ih h]
    simp
  | case7 d argument rest hlast hpath hsystem hpretty hpem hoption =>
    rw [parseFrom_cons (ne_anchors hlast hpath) hsystem hpretty hpem, if_pos hoption] at h
    cases h
  | case8 d argument rest hlast hpath hsystem hpretty hpem hoption document hdocument =>
    rw [parseFrom_cons (ne_anchors hlast hpath) hsystem hpretty hpem, if_neg hoption] at h
    simp only [hdocument] at h
    cases h
  | case9 d argument rest hlast hpath hsystem hpretty hpem hoption hdocument ih =>
    have hbundle := ne_anchors hlast hpath
    rw [parseFrom_cons hbundle hsystem hpretty hpem, if_neg hoption] at h
    simp only [hdocument] at h
    have hne : ¬ "--pem" = argument := fun heq => hpem heq.symm
    rw [withoutBundles_cons hbundle, ih h]
    simp [hne]

/-- Certificates are asked for exactly if an argument says so, unless it is the path of a
bundle. -/
theorem Arguments.withCertificates_iff {a : Arguments} {arguments : List String}
    (h : Arguments.parse arguments = .ok a) :
    a.withCertificates = true ↔ "--pem" ∈ withoutBundles arguments := by
  obtain ⟨d, hread, hfinish⟩ := bind_eq_ok_iff.1 h
  have hswitch : a.withCertificates = d.withCertificates := by
    unfold Draft.finish at hfinish
    split at hfinish
    · cases hfinish
    · cases hfinish
      rfl
  rw [hswitch, withCertificates_of_parseFrom hread]
  simp

end CommandLine

end SignedPdf
