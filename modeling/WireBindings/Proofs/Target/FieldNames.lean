import WireBindings.Proofs.Identifier.Pascal
import WireBindings.Proofs.Target.Escaping
import WireBindings.Proofs.Target.Printable
import WireBindings.Proofs.Target.PythonWireNames

/-!
# Names of the fields of a record

A class declares a private field, a getter and a setter for each field of a record, and a data class
an attribute. Fields and attributes are named by the wire name with reserved words set apart, and
accessors by its words. So the names of different fields can become one.
-/

namespace WireBindings.Target

open Binding (DataType Field)
open Identifier (pascal)

/-! ## Java -/

namespace Java

def attributeNames (t : DataType) : List String := t.fields.map fun f => safeIdentifier f.name ""

def accessorNames (t : DataType) : List String :=
  t.fields.map (fun f => "get" ++ accessorSuffix f.name) ++
    t.fields.map fun f => "set" ++ accessorSuffix f.name

def declarations (fields : List FieldText) : List String :=
  fields.map (fun f => "private " ++ f.type ++ " " ++ f.name ++ ";") ++
    fields.flatMap fun f =>
      ["public " ++ f.type ++ " get" ++ f.accessor ++ "() \x7b",
        "public void set" ++ f.accessor ++ "(" ++ f.type ++ " " ++ f.name ++ ") \x7b"]

/-- The class of a record declares a private field and two accessors for each of its fields. -/
def DeclaresFields (o : Options) (scope : Scope) (t : DataType) (text : TypeText) : Prop :=
  ∃ fields, text.body = .fields fields ∧
    fields.map FieldText.name = attributeNames t ∧
    fields.map FieldText.accessor = t.fields.map (fun f => accessorSuffix f.name) ∧
    Carries (render (typeLines o scope text)) (declarations fields)

theorem carries_fieldLines (f : FieldText) :
    Carries (render (fieldLines f)) ["private " ++ f.type ++ " " ++ f.name ++ ";"] := by
  have hline : Carries ("        " ++ f.modifiers ++ "private " ++ f.type ++ " " ++ f.name ++ ";")
      ["private " ++ f.type ++ " " ++ f.name ++ ";"] := by
    simp only [String.append_assoc]
    exact (Carries.self.prepend _).prepend _
  exact hline.render_line [""] []

theorem carries_accessorLines (f : FieldText) :
    Carries (render (accessorLines f))
      ["public " ++ f.type ++ " get" ++ f.accessor ++ "() \x7b",
        "public void set" ++ f.accessor ++ "(" ++ f.type ++ " " ++ f.name ++ ") \x7b"] := by
  have hgetter : Carries ("        public " ++ f.type ++ " get" ++ f.accessor ++ "() \x7b")
      ["public " ++ f.type ++ " get" ++ f.accessor ++ "() \x7b"] := by
    have hsplit : "        public " = "        " ++ "public " := rfl
    rw [hsplit]
    simp only [String.append_assoc]
    exact Carries.self.prepend _
  have hsetter : Carries
      ("        public void set" ++ f.accessor ++ "(" ++ f.type ++ " " ++ f.name ++ ") \x7b")
      ["public void set" ++ f.accessor ++ "(" ++ f.type ++ " " ++ f.name ++ ") \x7b"] := by
    have hsplit : "        public void set" = "        " ++ "public void set" := rfl
    rw [hsplit]
    simp only [String.append_assoc]
    exact Carries.self.prepend _
  have hfirst := hgetter.render_line ([""] ++ indent 8 f.comment)
    (["            return " ++ f.name ++ ";", "        \x7d", ""] ++ indent 8 f.comment)
  have hsecond := hsetter.render_line []
    ["            this." ++ f.name ++ " = " ++ f.name ++ ";", "        \x7d"]
  have hboth := hfirst.render_append hsecond
  simp only [accessorLines, List.append_assoc, List.cons_append, List.nil_append] at hboth ⊢
  exact hboth

theorem carries_classLines (name : String) (fields : List FieldText) :
    Carries (render (classLines name fields)) (declarations fields) := by
  have hfields : Carries (render (fields.flatMap fieldLines))
      (fields.flatMap fun f => ["private " ++ f.type ++ " " ++ f.name ++ ";"]) :=
    .render_flatMap (List.forall₂_same.2 fun f _ => carries_fieldLines f)
  have haccessors := Carries.render_flatMap
    (List.forall₂_same.2 fun f (_ : f ∈ fields) => carries_accessorLines f)
  rw [← List.map_eq_flatMap] at hfields
  have hboth := (hfields.render_append haccessors).render_between
    ["    class " ++ name ++ " \x7b"] ["    \x7d"]
  rwa [← List.append_assoc] at hboth

theorem fieldText_eq_ok {o : Options} {scope : Scope} {f : Field} {text : FieldText}
    (h : fieldText o scope f = .ok text) :
    safeIdentifier f.name "" = text.name ∧ accessorSuffix f.name = text.accessor := by
  obtain ⟨type, -, h⟩ := Outcome.bind_eq_ok.1 h
  obtain rfl := Outcome.pure_eq_ok.1 h
  exact ⟨rfl, rfl⟩

theorem declaresFields {o : Options} {scope : Scope} {t : DataType} {text : TypeText}
    (hkind : t.kind = .record) (h : dataTypeText o scope t = .ok text) :
    DeclaresFields o scope t text := by
  obtain ⟨body, hbody, h⟩ := Outcome.bind_eq_ok.1 h
  obtain rfl := Outcome.pure_eq_ok.1 h
  simp only [typeBody, hkind] at hbody
  obtain ⟨fields, hfields, hbody⟩ := Outcome.bind_eq_ok.1 hbody
  obtain rfl := Outcome.pure_eq_ok.1 hbody
  have hfields := Outcome.mapM_eq_ok.1 hfields
  refine ⟨fields, rfl, ?_, ?_, ?_⟩
  · exact (Outcome.map_eq_map_of_forall₂ hfields fun _ _ _ hf => (fieldText_eq_ok hf).1).symm
  · exact (Outcome.map_eq_map_of_forall₂ hfields fun _ _ _ hf => (fieldText_eq_ok hf).2).symm
  · have hclass := (carries_classLines (typeName t.domain t.name) fields).render_between
      ([""] ++ indent 4 (docComment t.advisory.description []) ++
        indent 4 (scope.annotations t.advisory false)) []
    rwa [List.append_nil] at hclass

/-! ### Names that become one -/

/-- The words of an identifier keep no underscore. -/
theorem pascal_ne_guarded (name : String) : pascal name ≠ "Class_" := by
  intro h
  have hchars : (pascal name).toList = "Class_".toList := congrArg String.toList h
  rw [pascal, String.toList_ofList] at hchars
  have hunderscore : '_' ∉ (Identifier.splitChars name.toList).flatMap Identifier.capitalize :=
    fun hmem => absurd (Identifier.isWordChar_of_mem_capitalized hmem) (by decide)
  split at hchars
  · cases hchars
  · rw [List.nil_append] at hchars
    exact hunderscore (hchars ▸ by decide)

theorem accessorSuffix_eq_accessorSuffix_iff {a b : String} :
    accessorSuffix a = accessorSuffix b ↔ pascal a = pascal b := by
  unfold accessorSuffix
  constructor
  · intro h
    by_cases ha : pascal a = "Class"
    · by_cases hb : pascal b = "Class"
      · rw [ha, hb]
      · simp only [ha, hb, if_true, if_false] at h
        exact absurd h.symm (pascal_ne_guarded b)
    · by_cases hb : pascal b = "Class"
      · simp only [ha, hb, if_true, if_false] at h
        exact absurd h (pascal_ne_guarded a)
      · simpa only [ha, hb, if_false] using h
  · intro h
    simp only [h]

theorem accessorSuffix_ne_class (name : String) : accessorSuffix name ≠ "Class" := by
  unfold accessorSuffix
  dsimp only
  split
  · next h =>
    rw [h]
    decide
  · next h => exact h

theorem nodup_accessorNames_iff {t : DataType} :
    (accessorNames t).Nodup ↔ (t.fields.map fun f => pascal f.name).Nodup := by
  have hprefixed (lead : String) :
      (t.fields.map fun f => lead ++ accessorSuffix f.name).Nodup ↔
        (t.fields.map fun f => pascal f.name).Nodup := by
    simp only [List.Nodup, List.pairwise_map, ne_eq, String.append_right_inj,
      accessorSuffix_eq_accessorSuffix_iff]
  have hdisjoint : List.Disjoint (t.fields.map fun f => "get" ++ accessorSuffix f.name)
      (t.fields.map fun f => "set" ++ accessorSuffix f.name) := by
    intro name hgetter hsetter
    obtain ⟨f, -, rfl⟩ := List.mem_map.1 hgetter
    obtain ⟨g, -, h⟩ := List.mem_map.1 hsetter
    have hchars := congrArg String.toList h
    rw [String.toList_append, String.toList_append] at hchars
    cases hchars
  rw [accessorNames, List.nodup_append', hprefixed, hprefixed]
  exact ⟨fun h => h.1, fun h => ⟨h, h, hdisjoint⟩⟩

theorem getClass_not_mem_accessorNames (t : DataType) : "getClass" ∉ accessorNames t := by
  intro h
  rcases List.mem_append.1 h with h | h
  · obtain ⟨f, -, h⟩ := List.mem_map.1 h
    have hsplit : "getClass" = "get" ++ "Class" := rfl
    rw [hsplit] at h
    exact accessorSuffix_ne_class f.name ((String.append_right_inj "get").1 h)
  · obtain ⟨f, -, h⟩ := List.mem_map.1 h
    have hchars := congrArg String.toList h
    rw [String.toList_append] at hchars
    cases hchars

end Java

/-! ## Python -/

namespace Python

def attributeNames (t : DataType) : List String := t.fields.map fun f => safeName f.name ""

def declarations (fields : List FieldText) : List String :=
  fields.map fun f => "    " ++ f.name ++ ": " ++ f.type ++ " = "

/-- The data class of a record declares an attribute for each of its fields. -/
def DeclaresFields (t : DataType) (text : TypeText) : Prop :=
  ∃ fields, text.body = .fields fields ∧
    fields.map FieldText.name = attributeNames t ∧
    Carries (render (typeLines text)) (declarations fields)

theorem declaresFields {t : DataType} {text : TypeText} (hkind : t.kind = .record)
    (h : dataTypeText t = .ok text) : DeclaresFields t text := by
  obtain ⟨body, hbody, h⟩ := Outcome.bind_eq_ok.1 h
  obtain rfl := Outcome.pure_eq_ok.1 h
  simp only [typeBody, hkind] at hbody
  obtain ⟨fields, hfields, hbody⟩ := Outcome.bind_eq_ok.1 hbody
  obtain rfl := Outcome.pure_eq_ok.1 hbody
  have hfields := Outcome.mapM_eq_ok.1 hfields
  refine ⟨fields, rfl, (Outcome.map_eq_map_of_forall₂ hfields fun f _ text hf => ?_).symm, ?_⟩
  · obtain ⟨type, -, hf⟩ := Outcome.bind_eq_ok.1 hf
    obtain rfl := Outcome.pure_eq_ok.1 hf
    rfl
  · have hlines : Carries (render (fields.flatMap fieldLines))
        (fields.flatMap fun f => ["    " ++ f.name ++ ": " ++ f.type ++ " = "]) :=
      .render_flatMap (List.forall₂_same.2 fun f _ =>
        (Carries.self.followed f.initial).render_line [] _)
    rw [← List.map_eq_flatMap] at hlines
    have hall := (carries_bodyOrPass hlines).render_between
      (["", ""] ++ (["@dataclasses.dataclass(kw_only=True)",
        "class " ++ typeName t.domain t.name ++ ":"] ++ classDocstring (docstring t.advisory))) []
    rwa [List.append_nil, List.append_assoc] at hall

end Python

/-! ## Both targets -/

structure FieldsDeclared (t : DataType) : Prop where
  java : ∀ o scope text, Java.dataTypeText o scope t = .ok text → Java.DeclaresFields o scope t text
  python : ∀ text, Python.dataTypeText t = .ok text → Python.DeclaresFields t text
  printed : (∀ f ∈ t.fields, f.type.Complete) →
    (∀ o scope, ∃ text, Java.dataTypeText o scope t = .ok text) ∧
      ∃ text, Python.dataTypeText t = .ok text

theorem fieldsDeclared {t : DataType} (hkind : t.kind = .record) : FieldsDeclared t where
  java _ _ _ h := Java.declaresFields hkind h
  python _ h := Python.declaresFields hkind h
  printed hcomplete := by
    have ht : t.Complete := ⟨hcomplete, .inr (.inl hkind)⟩
    exact ⟨fun o scope => Java.exists_dataTypeText o scope ht, Python.exists_dataTypeText ht⟩

/-- Different fields keep different names exactly if no name of one is the marked form of a reserved
word that names another, and different accessors exactly if their words differ. -/
theorem field_names_distinct_iff {t : DataType} (hkind : t.kind = .record)
    (hnames : (t.fields.map Member.name).Nodup) :
    FieldsDeclared t ∧
      ((Java.attributeNames t).Nodup ↔ ∀ f ∈ t.fields, Java.isReserved f.name = true →
        ∀ g ∈ t.fields, g.name ≠ "_" ++ f.name) ∧
      ((Java.accessorNames t).Nodup ↔ (t.fields.map fun f => pascal f.name).Nodup) ∧
      "getClass" ∉ Java.accessorNames t ∧
      ((Python.attributeNames t).Nodup ↔ ∀ f ∈ t.fields, Python.isReserved f.name = true →
        ∀ g ∈ t.fields, g.name ≠ f.name ++ "_") := by
  have hjava := Java.escaping.nodup_map_iff
    (fun f : Field => Java.safeIdentifier_eq_escape f.name) hnames
  have hpython := Python.escaping.nodup_map_iff
    (fun f : Field => Python.safeName_eq_escape f.name) hnames
  exact ⟨fieldsDeclared hkind, hjava, Java.nodup_accessorNames_iff,
    Java.getClass_not_mem_accessorNames t, hpython⟩

/-- A record with reserved words for names and with names that differ in their words only. -/
def stackFrame : DataType where
  domain := "Runtime"
  name := "Frame"
  kind := .record
  fields := ["class", "scriptId", "script", "_", "from"].map fun name =>
    { name, type := .primitive .string }

theorem field_names_distinct_stackFrame :
    FieldsDeclared stackFrame ∧ (Java.attributeNames stackFrame).Nodup ∧
      (Java.accessorNames stackFrame).Nodup ∧ (Python.attributeNames stackFrame).Nodup ∧
      Java.accessorNames stackFrame =
        ["getClass_", "getScriptId", "getScript", "get_", "getFrom", "setClass_", "setScriptId",
          "setScript", "set_", "setFrom"] := by
  obtain ⟨hdeclared, hjava, haccessors, -, hpython⟩ :=
    field_names_distinct_iff (t := stackFrame) rfl (by decide +kernel)
  exact ⟨hdeclared, hjava.2 (by decide +kernel), haccessors.2 (by decide +kernel),
    hpython.2 (by decide +kernel), by decide +kernel⟩

/-- Reserved words and their marked forms, and names with the same words. -/
def merging : DataType where
  domain := "Runtime"
  name := "Value"
  kind := .record
  fields := ["class", "_class", "class_", "foo_bar", "fooBar"].map fun name =>
    { name, type := .primitive .string }

/-- Of five fields with different names two become one private field, two become one attribute, and
two pairs share their accessors. -/
theorem field_names_merged :
    (merging.fields.map Member.name).Nodup ∧ FieldsDeclared merging ∧
      (∀ f ∈ merging.fields, f.type.Complete) ∧
      Java.attributeNames merging = ["_class", "_class", "class_", "foo_bar", "fooBar"] ∧
      Java.accessorNames merging =
        ["getClass_", "get_Class", "getClass_", "getFooBar", "getFooBar", "setClass_", "set_Class",
          "setClass_", "setFooBar", "setFooBar"] ∧
      Python.attributeNames merging = ["class_", "_class", "class_", "foo_bar", "fooBar"] := by
  have hcomplete : ∀ f ∈ merging.fields, f.type.Complete := by
    intro f hf
    obtain ⟨name, -, rfl⟩ := List.mem_map.1 hf
    rintro name ⟨⟩
  exact ⟨by decide +kernel, fieldsDeclared rfl, hcomplete, by decide +kernel, by decide +kernel,
    by decide +kernel⟩

end WireBindings.Target
