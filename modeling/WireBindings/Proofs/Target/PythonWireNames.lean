import WireBindings.Proofs.Outcome
import WireBindings.Proofs.Target.PythonLiterals
import WireBindings.Proofs.Target.Rendering
import WireBindings.Target.PythonUnit

/-!
# Wire names in Python modules

A module writes the wire names of its constants, fields and events as literals. A name is read back
as it was written as long as all its characters are in the first plane; of a character beyond that
the two surrogates are read, which are no such character.
-/

namespace WireBindings.Target.Python

open Binding (DataType Field)
open Java (units)

/-! ## What a module carries -/

section

variable {package version : String} {d : Plan.Domain} {file : File}

/-- A module carries what its types, methods and subscriptions carry, in their order. -/
theorem carries_domainFile (typeParts : DataType → List String)
    (methodParts : Plan.Signature → List String)
    (subscriptionParts : Plan.Subscription → List String)
    (htypes : ∀ {t text}, dataTypeText t = .ok text →
      Carries (render (typeLines text)) (typeParts t))
    (hmethods : ∀ {m text}, methodText d.domain.name m = .ok text →
      Carries (render (methodLines text)) (methodParts m))
    (hsubscriptions : ∀ {s text}, subscriptionText d.domain.name s = .ok text →
      Carries (render (subscriptionLines text)) (subscriptionParts s))
    (h : domainFile package version d = .ok file) :
    Carries file.text (d.domain.types.flatMap typeParts ++ d.methods.flatMap methodParts ++
      d.subscriptions.flatMap subscriptionParts) := by
  obtain ⟨types, hts, h⟩ := Outcome.bind_eq_ok.1 h
  obtain ⟨methods, hms, h⟩ := Outcome.bind_eq_ok.1 h
  obtain ⟨subscriptions, hss, h⟩ := Outcome.bind_eq_ok.1 h
  have htypeLines := Carries.render_flatMap ((Outcome.mapM_eq_ok.1 hts).imp fun _ _ => htypes)
  have hmethodLines := Carries.render_flatMap ((Outcome.mapM_eq_ok.1 hms).imp fun _ _ => hmethods)
  have hsubscriptionLines := Carries.render_flatMap
    ((Outcome.mapM_eq_ok.1 hss).imp fun _ _ => hsubscriptions)
  have hother (lines : List String) : Carries (render lines) [] := .nil
  -- nothing is asked of the lines before the types, between types and methods, and at the end
  have hparts : d.domain.types.flatMap typeParts ++ d.methods.flatMap methodParts ++
      d.subscriptions.flatMap subscriptionParts =
        [] ++ d.domain.types.flatMap typeParts ++ [] ++ [] ++ d.methods.flatMap methodParts ++
          d.subscriptions.flatMap subscriptionParts ++ [] := by
    simp only [List.nil_append, List.append_nil]
  rw [← Outcome.pure_eq_ok.1 h, hparts]
  apply Carries.render_append _ (hother _)
  apply Carries.render_append _ hsubscriptionLines
  apply Carries.render_append _ hmethodLines
  apply Carries.render_append _ (hother _)
  apply Carries.render_append _ (hother _)
  exact (hother _).render_append htypeLines

end

/-! ## Places of wire names -/

inductive WirePlace
  | symbol (name wire : String)
  | metadata (wire : String)
  | event (wire : String)

namespace WirePlace

def wire : WirePlace → String
  | .symbol _ wire | .metadata wire | .event wire => wire

def text : WirePlace → String
  | .symbol name wire => name ++ " = " ++ stringLiteral wire ++ "\n"
  | .metadata wire => "metadata=\x7b\"wire\": " ++ stringLiteral wire ++ "\x7d"
  | .event wire => "@_support.event_name(" ++ markupLiteral wire ++ ")"

end WirePlace

def typePlaces (t : DataType) : List WirePlace :=
  match t.kind with
  | .enumeration => (Identifier.constants t.values).map fun pair => .symbol pair.1 pair.2
  | .record => t.fields.map fun f => .metadata f.name
  | .alias | .unlisted _ => []

def modulePlaces (d : Plan.Domain) : List WirePlace :=
  d.domain.types.flatMap typePlaces ++ d.subscriptions.map fun s => .event s.eventName

def typeWireNames (t : DataType) : List String :=
  match t.kind with
  | .enumeration => t.values
  | .record => t.fields.map Member.name
  | .alias | .unlisted _ => []

def moduleWireNames (d : Plan.Domain) : List String :=
  d.domain.types.flatMap typeWireNames ++ d.subscriptions.map Plan.Subscription.eventName

theorem map_wire_typePlaces (t : DataType) :
    (typePlaces t).map WirePlace.wire = typeWireNames t := by
  unfold typePlaces typeWireNames
  split
  · conv_rhs => rw [← Identifier.map_snd_constants t.values]
    rw [List.map_map]
    rfl
  · rw [List.map_map]
    rfl
  · rfl
  · rfl

theorem map_wire_modulePlaces (d : Plan.Domain) :
    (modulePlaces d).map WirePlace.wire = moduleWireNames d := by
  simp only [modulePlaces, moduleWireNames, List.map_append, List.map_flatMap, List.map_map,
    map_wire_typePlaces]
  rfl

/-! ## Printed places -/

theorem carries_bodyOrPass {lines parts : List String} (h : Carries (render lines) parts) :
    Carries (render (bodyOrPass lines)) parts := by
  unfold bodyOrPass
  split
  · next hempty =>
    rw [List.isEmpty_iff.1 hempty] at h
    exact h.render_between ["    pass"] []
  · exact h

theorem carries_symbolLine (pair : String × String) :
    Carries (render ["    " ++ pair.1 ++ " = " ++ stringLiteral pair.2])
      [(WirePlace.symbol pair.1 pair.2).text] := by
  rw [render_singleton]
  show Carries _ [pair.1 ++ " = " ++ stringLiteral pair.2 ++ "\n"]
  simp only [String.append_assoc]
  exact Carries.self.prepend _

theorem carries_fieldText {domain : String} {f : Field} {text : FieldText}
    (h : fieldText domain f = .ok text) :
    Carries (render (fieldLines text)) [(WirePlace.metadata f.name).text] := by
  obtain ⟨type, -, h⟩ := Outcome.bind_eq_ok.1 h
  have hinitial : Carries text.initial [(WirePlace.metadata f.name).text] := by
    obtain rfl := Outcome.pure_eq_ok.1 h
    simp only
    split
    · exact (Carries.self.prepend _).followed _
    · exact (Carries.self.prepend _).followed _
  exact (hinitial.prepend _).render_line [] _

theorem carries_dataTypeText {t : DataType} {text : TypeText} (h : dataTypeText t = .ok text) :
    Carries (render (typeLines text)) ((typePlaces t).map WirePlace.text) := by
  obtain ⟨body, hbody, h⟩ := Outcome.bind_eq_ok.1 h
  obtain rfl := Outcome.pure_eq_ok.1 h
  unfold typeLines
  have hlines {above lines places : List String} (hrest : Carries (render lines) places) :
      Carries (render (["", ""] ++ (above ++ classDocstring (docstring t.advisory) ++
        bodyOrPass lines))) places := by
    have hall := (carries_bodyOrPass hrest).render_between
      (["", ""] ++ (above ++ classDocstring (docstring t.advisory))) []
    rwa [List.append_nil, List.append_assoc] at hall
  cases hkind : t.kind with
  | enumeration =>
      simp only [typeBody, hkind] at hbody
      obtain rfl := Outcome.pure_eq_ok.1 hbody
      have hsymbols : Carries
          (render ((Identifier.constants t.values).flatMap fun pair =>
            ["    " ++ pair.1 ++ " = " ++ stringLiteral pair.2]))
          ((Identifier.constants t.values).flatMap fun pair =>
            [(WirePlace.symbol pair.1 pair.2).text]) :=
        .render_flatMap (List.forall₂_same.2 fun pair _ => carries_symbolLine pair)
      rw [← List.map_eq_flatMap, ← List.map_eq_flatMap] at hsymbols
      simp only [typePlaces, hkind, List.map_map]
      exact hlines hsymbols
  | record =>
      simp only [typeBody, hkind] at hbody
      obtain ⟨fields, hfields, hbody⟩ := Outcome.bind_eq_ok.1 hbody
      obtain rfl := Outcome.pure_eq_ok.1 hbody
      have hmetadata := Carries.render_flatMap ((Outcome.mapM_eq_ok.1 hfields).imp fun _ _ =>
        carries_fieldText)
      rw [← List.map_eq_flatMap] at hmetadata
      simp only [typePlaces, hkind, List.map_map]
      exact hlines hmetadata
  | _ =>
      simp only [typePlaces, hkind]
      exact .nil

theorem carries_subscriptionText {domain : String} {s : Plan.Subscription}
    {text : SubscriptionText} (h : subscriptionText domain s = .ok text) :
    Carries (render (subscriptionLines text)) [(WirePlace.event s.eventName).text] := by
  obtain ⟨payload, -, h⟩ := Outcome.bind_eq_ok.1 h
  have hname : text.eventName = markupLiteral s.eventName := by rw [← Outcome.pure_eq_ok.1 h]
  have hline : Carries ("    @_support.event_name(" ++ text.eventName ++ ")")
      [(WirePlace.event s.eventName).text] := by
    have hsplit : "    @_support.event_name(" = "    " ++ "@_support.event_name(" := rfl
    rw [hname, hsplit]
    show Carries _ ["@_support.event_name(" ++ markupLiteral s.eventName ++ ")"]
    simp only [String.append_assoc]
    exact Carries.self.prepend _
  exact hline.render_line [""] _

theorem carries_modulePlaces {package version : String} {d : Plan.Domain} {file : File}
    (h : domainFile package version d = .ok file) :
    Carries file.text ((modulePlaces d).map WirePlace.text) := by
  have hparts := carries_domainFile (fun t => (typePlaces t).map WirePlace.text) (fun _ => [])
    (fun s => [(WirePlace.event s.eventName).text]) carries_dataTypeText (fun _ => .nil)
    carries_subscriptionText h
  rw [List.flatMap_eq_nil_iff.2 fun _ _ => rfl, List.append_nil, ← List.map_eq_flatMap] at hparts
  rwa [modulePlaces, List.map_append, List.map_flatMap, List.map_map]

/-- A literal gives the text that it was written for, wherever it stands, exactly if all characters
of the text are in the first plane. The text of a module carries all wire names of its plan as such
literals, in symbols, in the metadata of fields and in the decorators of subscriptions. -/
theorem wire_literals_read_back_iff (wire : String) :
    (IsLiteralOf (stringLiteral wire) (codePoints wire) ↔ InFirstPlane wire) ∧
      (IsLiteralOf (markupLiteral wire) (codePoints wire) ↔ InFirstPlane wire) ∧
      ∀ {package version : String} {d : Plan.Domain} {file : File},
        domainFile package version d = .ok file →
          Carries file.text ((modulePlaces d).map WirePlace.text) ∧
            (modulePlaces d).map WirePlace.wire = moduleWireNames d := by
  have hexact {text : String} (h : IsLiteralOf text (units wire)) :
      IsLiteralOf text (codePoints wire) ↔ InFirstPlane wire := by
    rw [← units_eq_codePoints_iff]
    exact ⟨h.unique, fun heq => heq ▸ h⟩
  refine ⟨?_, ?_, fun {_ _ d _} h => ⟨carries_modulePlaces h, ?_⟩⟩
  · exact hexact (isLiteralOf_stringLiteral wire)
  · exact hexact (isLiteralOf_markupLiteral wire)
  · exact map_wire_modulePlaces d

def guardedNames : Plan.Domain where
  domain :=
    { name := "Log"
      types := [
        { domain := "Log", name := "Mark", kind := .enumeration, values := ["<\\>", "\x7f"] },
        { domain := "Log", name := "Entry", kind := .record,
          fields := [{ name := "\"größe\"", type := .opaqueValue }] }]
      commands := []
      events := [] }
  methods := []
  subscriptions := [
    { name := "onAdded", eventName := "it's\nadded", payload := ⟨"Log", "Added", .record⟩ }]

theorem wire_literals_read_back_guarded :
    ∃ file, domainFile "p" "" guardedNames = .ok file ∧
      Carries file.text [
        "EMPTY = \"<\\\\>\"\n", "EMPTY_2 = \"\\u007f\"\n",
        "metadata=\x7b\"wire\": \"\\\"gr\\u00f6\\u00dfe\\\"\"\x7d",
        "@_support.event_name(\"it\\u0027s\\nadded\")"] ∧
      IsLiteralOf "\"it\\u0027s\\nadded\"" (codePoints "it's\nadded") := by
  have hok : (domainFile "p" "" guardedNames).isOk = true := by decide +kernel
  obtain ⟨file, hfile⟩ := Outcome.exists_eq_ok_of_isOk hok
  obtain ⟨-, hexact, hcarries⟩ := wire_literals_read_back_iff "it's\nadded"
  have hplaces : (modulePlaces guardedNames).map WirePlace.text = [
      "EMPTY = \"<\\\\>\"\n", "EMPTY_2 = \"\\u007f\"\n",
      "metadata=\x7b\"wire\": \"\\\"gr\\u00f6\\u00dfe\\\"\"\x7d",
      "@_support.event_name(\"it\\u0027s\\nadded\")"] := by decide +kernel
  have hplane : InFirstPlane "it's\nadded" := by decide +kernel
  refine ⟨file, hfile, ?_, hexact.2 hplane⟩
  rw [← hplaces]
  exact (hcarries hfile).1

/-- Of a character beyond the first plane the surrogates are read, and not the character. -/
theorem wire_literals_read_as_surrogates :
    (IsLiteralOf (stringLiteral "😀") [0xd83d, 0xde00] ∧
      ¬ IsLiteralOf (stringLiteral "😀") (codePoints "😀")) ∧
      IsLiteralOf (markupLiteral "😀") [0xd83d, 0xde00] ∧
        ¬ IsLiteralOf (markupLiteral "😀") (codePoints "😀") := by
  have hunits : units "😀" = [0xd83d, 0xde00] := by decide +kernel
  have hdiffer : [0xd83d, 0xde00] ≠ codePoints "😀" := by decide +kernel
  have hstring := isLiteralOf_stringLiteral "😀"
  have hmarkup := isLiteralOf_markupLiteral "😀"
  rw [hunits] at hstring hmarkup
  exact ⟨⟨hstring, fun h => hdiffer (hstring.unique h)⟩, hmarkup, fun h =>
    hdiffer (hmarkup.unique h)⟩

end WireBindings.Target.Python
