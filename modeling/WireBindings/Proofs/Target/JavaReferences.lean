import WireBindings.Proofs.Target.Printable

/-!
# Type names in Java units

The unit of a domain names data types, support types and types of the platform. Every name in the
text of a type or of an annotation is the spelling of one of these references in the scope of the
unit.
-/

namespace WireBindings.Target.Java

open Binding (DataType Descriptor Field Primitive TypeName)

def languageTypes : List String :=
  ["Object", "String", "Integer", "Double", "Boolean", "Deprecated", "Override"]

def libraryTypes : List String := ["List", "Map"]

inductive Reference
  | dataType (name : TypeName)
  | support (name : { name : String // name ∈ supportTypes })
  | language (name : { name : String // name ∈ languageTypes })
  | library (name : { name : String // name ∈ libraryTypes })
  deriving DecidableEq

namespace Reference

def object : Reference := .language ⟨"Object", by decide⟩
def string : Reference := .language ⟨"String", by decide⟩

/-- The name that stands for a reference: data types of other domains are qualified with these, and
the types of `java.util` are always written in full. -/
def spelling (scope : Scope) : Reference → String
  | .dataType n =>
    let name := Java.typeName n.domain n.name
    if n.domain = scope.domain then name else n.domain ++ "." ++ name
  | .support name => scope.reference name
  | .language name => scope.reference name
  | .library name => "java.util." ++ name

end Reference

/-! ## Types and annotations -/

/-- A part of a printed type: a reference or the punctuation around it. -/
inductive Piece
  | punctuation (text : String)
  | reference (r : Reference)

namespace Piece

def print (scope : Scope) : Piece → String
  | .punctuation text => text
  | .reference r => r.spelling scope

def reference? : Piece → Option Reference
  | .punctuation _ => none
  | .reference r => some r

end Piece

def printed (scope : Scope) (pieces : List Piece) : String :=
  String.join (pieces.map (Piece.print scope))

theorem printed_append (scope : Scope) (a b : List Piece) :
    printed scope (a ++ b) = printed scope a ++ printed scope b := by
  rw [printed, List.map_append, String.join_append]
  rfl

def primitivePieces : Primitive → List Piece
  | .integer => [.reference (.language ⟨"Integer", by decide⟩)]
  | .number => [.reference (.language ⟨"Double", by decide⟩)]
  | .string | .binary => [.reference .string]
  | .boolean => [.reference (.language ⟨"Boolean", by decide⟩)]
  | .object =>
    [.reference (.library ⟨"Map", by decide⟩), .punctuation "<", .reference .string,
      .punctuation ", ", .reference .object, .punctuation ">"]
  | .unlisted _ => []

def typePieces : Descriptor → List Piece
  | .collection item =>
    [.reference (.library ⟨"List", by decide⟩), .punctuation "<"] ++ typePieces item ++
      [.punctuation ">"]
  | .named type => [.reference (.dataType type)]
  | .opaqueValue => [.reference .object]
  | .primitive kind => primitivePieces kind
  | .absent => []

theorem primitiveClass_eq_ok {scope : Scope} {kind : Primitive} {text : String}
    (h : primitiveClass scope kind = .ok text) : text = printed scope (primitivePieces kind) := by
  cases kind with
  | unlisted name => cases h
  | _ =>
      obtain rfl := Except.ok.inj h
      simp [printed, primitivePieces, Piece.print, Reference.spelling, Reference.string,
        Reference.object, String.join, String.append_assoc]

/-- A printed type is its references as they are spelled, with punctuation between them. -/
theorem typeText_eq_ok {scope : Scope} {type : Descriptor} {text : String}
    (h : typeText scope type = .ok text) : text = printed scope (typePieces type) := by
  induction type generalizing text with
  | primitive kind => exact primitiveClass_eq_ok h
  | opaqueValue =>
      obtain rfl := Except.ok.inj h
      simp [printed, typePieces, Piece.print, Reference.spelling, Reference.object, String.join]
  | named type =>
      obtain rfl := Except.ok.inj h
      simp [printed, typePieces, Piece.print, Reference.spelling, String.join]
  | collection item ih =>
      cases hitem : typeText scope item with
      | error e =>
          rw [typeText, hitem] at h
          cases h
      | ok inner =>
          rw [typeText, hitem] at h
          obtain rfl := Except.ok.inj h
          rw [typePieces, printed_append, printed_append, ← ih hitem]
          simp [printed, Piece.print, Reference.spelling, String.join]
  | absent => cases h

def referencesOf (type : Descriptor) : List Reference :=
  (typePieces type).filterMap Piece.reference?

theorem dataType_mem_referencesOf {n : TypeName} {type : Descriptor}
    (h : .dataType n ∈ referencesOf type) : type.namedType? = some n := by
  induction type with
  | primitive kind => cases kind <;> simp [referencesOf, typePieces, primitivePieces,
      Piece.reference?, Reference.string, Reference.object] at h
  | opaqueValue => simp [referencesOf, typePieces, Piece.reference?, Reference.object] at h
  | named type =>
      obtain rfl : n = type := by simpa [referencesOf, typePieces, Piece.reference?] using h
      rfl
  | collection item ih =>
      exact ih (by simpa [referencesOf, typePieces, Piece.reference?] using h)
  | absent => cases h

def advisoryReferences (a : Advisory) (optional : Bool) : List Reference :=
  (if a.experimental then [.support ⟨"Experimental", by decide⟩] else []) ++
    (if a.deprecated then [.language ⟨"Deprecated", by decide⟩] else []) ++
    (if optional then [.support ⟨"Optional", by decide⟩] else [])

theorem annotations_eq (scope : Scope) (a : Advisory) (optional : Bool) :
    scope.annotations a optional =
      (advisoryReferences a optional).map fun r => "@" ++ r.spelling scope := by
  unfold Scope.annotations advisoryReferences
  rw [List.map_append, List.map_append]
  congr 1
  · congr 1 <;> split <;> rfl
  · split <;> rfl

theorem dataType_not_mem_advisoryReferences {n : TypeName} {a : Advisory} {optional : Bool} :
    .dataType n ∉ advisoryReferences a optional := by
  simp only [advisoryReferences, List.mem_append, not_or]
  refine ⟨⟨?_, ?_⟩, ?_⟩ <;> split <;> simp

/-! ## The references of a unit -/

def fieldReferences (f : Field) : List Reference :=
  advisoryReferences f.advisory f.optional ++ referencesOf f.type

/-- An enumeration keeps its literals as texts and shows them by overriding a method. -/
def bodyReferences (t : DataType) : List Reference :=
  match t.kind with
  | .enumeration => [.string, .language ⟨"Override", by decide⟩]
  | .record => t.fields.flatMap fieldReferences
  | .alias | .unlisted _ => referencesOf (itemOf (t.target.getD .absent))

def typeReferences (t : DataType) : List Reference :=
  advisoryReferences t.advisory false ++ bodyReferences t

def parameterReferences (p : Field) : List Reference :=
  advisoryReferences p.advisory p.optional ++ [.support ⟨"ParamName", by decide⟩] ++
    referencesOf p.type

def methodReferences (m : Plan.Signature) : List Reference :=
  advisoryReferences m.advisory false ++ m.parameters.flatMap parameterReferences ++
    m.returns.toList.flatMap referencesOf

def subscriptionReferences (s : Plan.Subscription) : List Reference :=
  advisoryReferences s.advisory false ++
    [.support ⟨"EventName", by decide⟩, .support ⟨"EventListener", by decide⟩,
      .support ⟨"EventHandler", by decide⟩, .dataType s.payload]

/-- What the unit of a domain refers to by type names. -/
def unitReferences (d : Plan.Domain) : List Reference :=
  advisoryReferences d.domain.advisory false ++ d.domain.types.flatMap typeReferences ++
    d.methods.flatMap methodReferences ++ d.subscriptions.flatMap subscriptionReferences

/-! ## What a unit prints -/

/-- The types in the body of a data type; an alias extends a list of items. -/
def bodyTypes (t : DataType) : List Descriptor :=
  match t.kind with
  | .enumeration => []
  | .record => t.fields.map Member.type
  | .alias | .unlisted _ => [itemOf (t.target.getD .absent)]

def methodTypes (m : Plan.Signature) : List Descriptor :=
  m.parameters.map Member.type ++ m.returns.toList

def unitTypes (d : Plan.Domain) : List Descriptor :=
  d.domain.types.flatMap bodyTypes ++ d.methods.flatMap methodTypes ++
    d.subscriptions.map fun s => .named s.payload

def fieldAdvisory (f : Field) : Advisory × Bool := (f.advisory, f.optional)

def typeAdvisories (t : DataType) : List (Advisory × Bool) :=
  (t.advisory, false) :: if t.kind = .record then t.fields.map fieldAdvisory else []

def methodAdvisories (m : Plan.Signature) : List (Advisory × Bool) :=
  (m.advisory, false) :: m.parameters.map fieldAdvisory

def unitAdvisories (d : Plan.Domain) : List (Advisory × Bool) :=
  (d.domain.advisory, false) :: d.domain.types.flatMap typeAdvisories ++
    d.methods.flatMap methodAdvisories ++ d.subscriptions.map fun s => (s.advisory, false)

/-- The types and annotations that a unit prints are references of the unit as they are spelled in
a scope, with punctuation between them. -/
structure Spelled (scope : Scope) (d : Plan.Domain) : Prop where
  types : ∀ type ∈ unitTypes d, typeText scope type = .ok (printed scope (typePieces type)) ∧
    referencesOf type ⊆ unitReferences d
  annotations : ∀ a ∈ unitAdvisories d,
    scope.annotations a.1 a.2 =
        (advisoryReferences a.1 a.2).map (fun r => "@" ++ r.spelling scope) ∧
      advisoryReferences a.1 a.2 ⊆ unitReferences d

theorem typeText_of_complete (scope : Scope) {type : Descriptor} (h : type.Complete) :
    typeText scope type = .ok (printed scope (typePieces type)) := by
  obtain ⟨text, htext⟩ := (exists_typeText_iff scope).2 h
  rw [← typeText_eq_ok htext]
  exact htext

theorem complete_of_mem_bodyTypes {t : DataType} (h : t.Complete) {type : Descriptor}
    (htype : type ∈ bodyTypes t) : type.Complete := by
  unfold bodyTypes at htype
  rcases h.kind with hkind | hkind | ⟨hkind, target, htarget, hcomplete⟩ <;>
    simp only [hkind] at htype
  · cases htype
  · obtain ⟨f, hf, rfl⟩ := List.mem_map.1 htype
    exact h.fields f hf
  · rw [htarget, List.mem_singleton] at htype
    exact htype ▸ itemOf_complete hcomplete

theorem complete_of_mem_unitTypes {d : Plan.Domain} (h : d.Complete) {type : Descriptor}
    (htype : type ∈ unitTypes d) : type.Complete := by
  simp only [unitTypes, methodTypes, List.mem_append, List.mem_flatMap, List.mem_map,
    Option.mem_toList] at htype
  rcases htype with (⟨t, ht, htype⟩ | ⟨m, hm, ⟨p, hp, rfl⟩ | hreturns⟩) | ⟨s, -, rfl⟩
  · exact complete_of_mem_bodyTypes (h.types t ht) htype
  · exact (h.methods m hm).parameters p hp
  · exact (h.methods m hm).returns type hreturns
  · trivial

theorem referencesOf_subset_bodyReferences {t : DataType} {type : Descriptor}
    (htype : type ∈ bodyTypes t) : referencesOf type ⊆ bodyReferences t := by
  unfold bodyTypes at htype
  unfold bodyReferences
  split at htype
  · cases htype
  · obtain ⟨f, hf, rfl⟩ := List.mem_map.1 htype
    exact fun r hr => List.mem_flatMap.2 ⟨f, hf, List.mem_append_right _ hr⟩
  · exact List.mem_singleton.1 htype ▸ List.Subset.refl _
  · exact List.mem_singleton.1 htype ▸ List.Subset.refl _

theorem referencesOf_subset_unitReferences {d : Plan.Domain} {type : Descriptor}
    (htype : type ∈ unitTypes d) : referencesOf type ⊆ unitReferences d := by
  intro r hr
  simp only [unitTypes, methodTypes, List.mem_append, List.mem_flatMap, List.mem_map,
    Option.mem_toList] at htype
  simp only [unitReferences, methodReferences, parameterReferences, List.mem_append,
    List.mem_flatMap]
  rcases htype with (⟨t, ht, htype⟩ | ⟨m, hm, ⟨p, hp, rfl⟩ | hreturns⟩) | ⟨s, hs, rfl⟩
  · have hbody := referencesOf_subset_bodyReferences htype hr
    exact .inl (.inl (.inr ⟨t, ht, List.mem_append_right _ hbody⟩))
  · exact .inl (.inr ⟨m, hm, .inl (.inr ⟨p, hp, .inr hr⟩)⟩)
  · exact .inl (.inr ⟨m, hm, .inr ⟨type, Option.mem_toList.2 hreturns, hr⟩⟩)
  · obtain rfl : r = .dataType s.payload := by
      simpa [referencesOf, typePieces, Piece.reference?] using hr
    exact .inr ⟨s, hs, List.mem_append_right _ (by simp)⟩

theorem advisoryReferences_subset_typeReferences {t : DataType} {a : Advisory × Bool}
    (ha : a ∈ typeAdvisories t) : advisoryReferences a.1 a.2 ⊆ typeReferences t := by
  intro r hr
  rcases List.mem_cons.1 ha with rfl | ha
  · exact List.mem_append_left _ hr
  · split at ha
    · rename_i hkind
      obtain ⟨f, hf, rfl⟩ := List.mem_map.1 ha
      refine List.mem_append_right _ ?_
      rw [bodyReferences, hkind]
      exact List.mem_flatMap.2 ⟨f, hf, List.mem_append_left _ hr⟩
    · cases ha

theorem advisoryReferences_subset_methodReferences {m : Plan.Signature} {a : Advisory × Bool}
    (ha : a ∈ methodAdvisories m) : advisoryReferences a.1 a.2 ⊆ methodReferences m := by
  intro r hr
  simp only [methodReferences, parameterReferences, List.mem_append, List.mem_flatMap]
  rcases List.mem_cons.1 ha with rfl | ha
  · exact .inl (.inl hr)
  · obtain ⟨p, hp, rfl⟩ := List.mem_map.1 ha
    exact .inl (.inr ⟨p, hp, .inl (.inl hr)⟩)

theorem advisoryReferences_subset_unitReferences {d : Plan.Domain} {a : Advisory × Bool}
    (ha : a ∈ unitAdvisories d) : advisoryReferences a.1 a.2 ⊆ unitReferences d := by
  intro r hr
  simp only [unitAdvisories, List.cons_append, List.mem_cons, List.mem_append, List.mem_flatMap,
    List.mem_map] at ha
  simp only [unitReferences, List.mem_append, List.mem_flatMap]
  rcases ha with rfl | ((⟨t, ht, ha⟩ | ⟨m, hm, ha⟩) | ⟨s, hs, rfl⟩)
  · exact .inl (.inl (.inl hr))
  · exact .inl (.inl (.inr ⟨t, ht, advisoryReferences_subset_typeReferences ha hr⟩))
  · exact .inl (.inr ⟨m, hm, advisoryReferences_subset_methodReferences ha hr⟩)
  · exact .inr ⟨s, hs, List.mem_append_left _ hr⟩

/-- A domain that is printed whole is spelled from its references. -/
theorem spelled_of_complete (scope : Scope) {d : Plan.Domain} (h : d.Complete) :
    Spelled scope d where
  types _ htype :=
    ⟨typeText_of_complete scope (complete_of_mem_unitTypes h htype),
      referencesOf_subset_unitReferences htype⟩
  annotations a ha :=
    ⟨annotations_eq scope a.1 a.2, advisoryReferences_subset_unitReferences ha⟩

end WireBindings.Target.Java
