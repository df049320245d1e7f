import WireBindings.Proofs.Outcome
import WireBindings.Proofs.Target.JavaLiterals
import WireBindings.Proofs.Target.Rendering
import WireBindings.Target.JavaUnit

/-!
# Wire names in Java units

A unit writes the wire names of constants, fields, parameters and events into annotations and
constants. Each is written as a literal of just that name.
-/

namespace WireBindings.Target.Java

open Binding (DataType Field)

inductive WirePlace
  | annotated (name wire : String)
  | constant (symbol wire : String)

namespace WirePlace

def wire : WirePlace → String
  | .annotated _ wire => wire
  | .constant _ wire => wire

def text : WirePlace → String
  | .annotated name wire => "@" ++ name ++ "(" ++ stringLiteral wire ++ ")"
  | .constant symbol wire => symbol ++ "(" ++ stringLiteral wire ++ ")"

end WirePlace

/-- The places of a wire name that is given to Jackson as well if the options ask for it. -/
def jacksonPlaces (o : Options) (scope : Scope) (wire : String) : List WirePlace :=
  if o.jackson then [.annotated scope.wireName wire] else []

def constantPlaces (o : Options) (scope : Scope) (pair : String × String) : List WirePlace :=
  jacksonPlaces o scope pair.2 ++ [.constant pair.1 pair.2]

def typePlaces (o : Options) (scope : Scope) (t : DataType) : List WirePlace :=
  match t.kind with
  | .enumeration => (Identifier.constants t.values).flatMap (constantPlaces o scope)
  | .record => t.fields.flatMap fun f => jacksonPlaces o scope f.name
  | .alias | .unlisted _ => []

def parameterPlace (scope : Scope) (p : Field) : WirePlace :=
  .annotated (scope.reference "ParamName") p.name

def subscriptionPlace (scope : Scope) (s : Plan.Subscription) : WirePlace :=
  .annotated (scope.reference "EventName") s.eventName

def unitPlaces (o : Options) (d : Plan.Domain) : List WirePlace :=
  let scope := scopeOf o d.domain
  d.domain.types.flatMap (typePlaces o scope) ++
    d.methods.flatMap (fun m => m.parameters.map (parameterPlace scope)) ++
    d.subscriptions.map (subscriptionPlace scope)

/-! ## The wire names of a plan -/

/-- The wire names that a type gives to its unit: those of its literals, each also for Jackson if
the options ask for it, and for Jackson those of its fields. -/
def typeWireNames (o : Options) (t : DataType) : List String :=
  match t.kind with
  | .enumeration =>
    t.values.flatMap fun literal => if o.jackson then [literal, literal] else [literal]
  | .record => if o.jackson then t.fields.map Member.name else []
  | .alias | .unlisted _ => []

def unitWireNames (o : Options) (d : Plan.Domain) : List String :=
  d.domain.types.flatMap (typeWireNames o) ++
    d.methods.flatMap (fun m => m.parameters.map Member.name) ++
    d.subscriptions.map Plan.Subscription.eventName

theorem map_wire_jacksonPlaces (o : Options) (scope : Scope) (wire : String) :
    (jacksonPlaces o scope wire).map WirePlace.wire = if o.jackson then [wire] else [] := by
  unfold jacksonPlaces
  split <;> rfl

theorem map_wire_typePlaces (o : Options) (scope : Scope) (t : DataType) :
    (typePlaces o scope t).map WirePlace.wire = typeWireNames o t := by
  unfold typePlaces typeWireNames
  split
  · conv_rhs => rw [← Identifier.map_snd_constants t.values, List.flatMap_map]
    rw [List.map_flatMap]
    refine List.flatMap_congr fun pair _ => ?_
    rw [constantPlaces, List.map_append, map_wire_jacksonPlaces]
    split <;> rfl
  · simp only [List.map_flatMap, map_wire_jacksonPlaces]
    split
    · exact List.map_eq_flatMap.symm
    · simp
  · rfl
  · rfl

/-- The places carry the wire names of the plan. -/
theorem map_wire_unitPlaces (o : Options) (d : Plan.Domain) :
    (unitPlaces o d).map WirePlace.wire = unitWireNames o d := by
  simp only [unitPlaces, unitWireNames, List.map_append, List.map_flatMap, List.map_map,
    map_wire_typePlaces]
  rfl

/-! ## Printed places -/

section

variable {o : Options} {scope : Scope}

theorem carries_fieldText {f : Field} {text : FieldText} (h : fieldText o scope f = .ok text) :
    Carries (render (fieldLines text)) ((jacksonPlaces o scope f.name).map WirePlace.text) := by
  obtain ⟨type, -, h⟩ := Outcome.bind_eq_ok.1 h
  have hmodifiers : Carries text.modifiers ((jacksonPlaces o scope f.name).map WirePlace.text) := by
    obtain rfl := Outcome.pure_eq_ok.1 h
    unfold jacksonPlaces
    split
    · rw [List.map_append, String.join_append]
      refine Carries.prepend _ ?_
      rw [List.map_singleton, String.join_cons]
      exact (Carries.self.followed _).followed _
    · exact .nil
  refine Carries.render_line [""] [] ?_
  exact (((((hmodifiers.prepend _).followed _).followed _).followed _).followed _).followed _

theorem carries_constant (pair : String × String) (mark : String) :
    Carries (render (onlyIf o.jackson
        ["        @" ++ scope.wireName ++ "(" ++ stringLiteral pair.2 ++ ")"] ++
        ["        " ++ pair.1 ++ "(" ++ stringLiteral pair.2 ++ ")" ++ mark]))
      ((constantPlaces o scope pair).map WirePlace.text) := by
  rw [constantPlaces, List.map_append]
  refine Carries.render_append ?_ ?_
  · unfold jacksonPlaces onlyIf
    split
    · have hplace : Carries ("        @" ++ scope.wireName ++ "(" ++ stringLiteral pair.2 ++ ")")
          [(WirePlace.annotated scope.wireName pair.2).text] := by
        have hsplit : "        @" = "        " ++ "@" := rfl
        rw [hsplit, String.append_assoc, String.append_assoc, String.append_assoc,
          String.append_assoc, WirePlace.text, String.append_assoc, String.append_assoc,
          String.append_assoc]
        exact Carries.self.prepend _
      exact hplace.render_line [] []
    · exact .nil
  · have hplace : Carries ("        " ++ pair.1 ++ "(" ++ stringLiteral pair.2 ++ ")")
        [(WirePlace.constant pair.1 pair.2).text] := by
      rw [String.append_assoc, String.append_assoc, String.append_assoc, WirePlace.text,
        String.append_assoc, String.append_assoc]
      exact Carries.self.prepend _
    exact (hplace.followed mark).render_line [] []

theorem forall₂_zipIdx {α β : Type} (f : α → β) (l : List α) (n : Nat) :
    List.Forall₂ (fun a entry => entry.1 = f a) l ((l.map f).zipIdx n) := by
  induction l generalizing n with
  | nil => exact .nil
  | cons a l ih => exact .cons rfl (ih (n + 1))

theorem carries_enumerationLines (name : String) (pairs : List (String × String)) :
    Carries
      (render (enumerationLines o scope name
        (pairs.map fun (symbol, literal) => (symbol, stringLiteral literal))))
      ((pairs.flatMap (constantPlaces o scope)).map WirePlace.text) := by
  have hindexed := forall₂_zipIdx
    (fun pair : String × String => (pair.1, stringLiteral pair.2)) pairs 0
  rw [List.map_flatMap]
  unfold enumerationLines
  simp only [List.isEmpty_map]
  apply Carries.render_between
  split
  · next hempty =>
    rw [List.isEmpty_iff.1 hempty]
    exact .nil
  · apply Carries.render_flatMap
    apply hindexed.imp
    rintro pair ⟨entry, i⟩ rfl
    exact carries_constant pair _

theorem carries_dataTypeText {t : DataType} {text : TypeText}
    (h : dataTypeText o scope t = .ok text) :
    Carries (render (typeLines o scope text)) ((typePlaces o scope t).map WirePlace.text) := by
  obtain ⟨body, hbody, h⟩ := Outcome.bind_eq_ok.1 h
  have hbody : typeBody o scope t = .ok text.body := by rw [hbody, ← Outcome.pure_eq_ok.1 h]
  clear h
  have hlines {lines places : List String} (hrest : Carries (render lines) places) :
      Carries (render ([""] ++ indent 4 text.comment ++ indent 4 text.annotations ++ lines))
        places := by
    have hall := hrest.render_between
      ([""] ++ indent 4 text.comment ++ indent 4 text.annotations) []
    rwa [List.append_nil] at hall
  refine hlines ?_
  cases hkind : t.kind with
  | enumeration =>
      simp only [typeBody, hkind] at hbody
      rw [← Outcome.pure_eq_ok.1 hbody]
      simp only [typePlaces, hkind]
      exact carries_enumerationLines _ _
  | record =>
      simp only [typeBody, hkind] at hbody
      obtain ⟨fields, hfields, hbody⟩ := Outcome.bind_eq_ok.1 hbody
      rw [← Outcome.pure_eq_ok.1 hbody]
      simp only [typePlaces, hkind, List.map_flatMap]
      have hfieldLines := Carries.render_flatMap ((Outcome.mapM_eq_ok.1 hfields).imp fun _ _ =>
        carries_fieldText)
      have hclass := hfieldLines.render_between ["    class " ++ text.name ++ " \x7b"]
        (fields.flatMap accessorLines ++ ["    \x7d"])
      rwa [← List.append_assoc] at hclass
  | _ =>
      simp only [typePlaces, hkind]
      exact .nil

theorem carries_parameterText {p : Field} {text : String}
    (h : parameterText scope p = .ok text) : Carries text [(parameterPlace scope p).text] := by
  obtain ⟨type, -, h⟩ := Outcome.bind_eq_ok.1 h
  rw [← Outcome.pure_eq_ok.1 h]
  have hannotations := Carries.intercalate_last " " (scope.annotations p.advisory p.optional)
    (parameterPlace scope p).text
  exact (((hannotations.followed _).followed _).followed _).followed _

theorem carries_methodLines {m : Plan.Signature} {text : MethodText}
    (h : methodText scope m = .ok text) :
    Carries (render (methodLines text))
      ((m.parameters.map (parameterPlace scope)).map WirePlace.text) := by
  obtain ⟨parameters, hparameters, h⟩ := Outcome.bind_eq_ok.1 h
  have hprinted : text.parameters = ", ".intercalate parameters := by
    dsimp only at h
    split at h
    all_goals
      obtain ⟨returns, -, h⟩ := Outcome.bind_eq_ok.1 h
      rw [← Outcome.pure_eq_ok.1 h]
  have htexts : List.Forall₂ Carries parameters
      (m.parameters.map fun p => [(parameterPlace scope p).text]) := by
    rw [List.forall₂_map_right_iff]
    exact ((Outcome.mapM_eq_ok.1 hparameters).imp fun _ _ => carries_parameterText).flip
  have hlist : Carries text.parameters
      ((m.parameters.map (parameterPlace scope)).map WirePlace.text) := by
    have hall := Carries.intercalate ", " htexts
    rw [← List.flatMap_def, ← List.map_eq_flatMap] at hall
    rwa [hprinted, List.map_map]
  have hline : Carries
      ("    " ++ text.returns ++ " " ++ text.name ++ "(" ++ text.parameters ++ ");")
      ((m.parameters.map (parameterPlace scope)).map WirePlace.text) :=
    (hlist.prepend _).followed _
  exact hline.render_line ([""] ++ indent 4 text.comment ++ indent 4 text.annotations) []

theorem carries_subscriptionLines {s : Plan.Subscription} {text : SubscriptionText}
    (h : subscriptionText scope s = .ok text) :
    Carries (render (subscriptionLines scope text)) [(subscriptionPlace scope s).text] := by
  obtain ⟨payload, -, h⟩ := Outcome.bind_eq_ok.1 h
  have hname : text.eventName = stringLiteral s.eventName := by rw [← Outcome.pure_eq_ok.1 h]
  have hline : Carries ("    @" ++ scope.reference "EventName" ++ "(" ++ text.eventName ++ ")")
      [(subscriptionPlace scope s).text] := by
    have hsplit : "    @" = "    " ++ "@" := rfl
    rw [hname, hsplit, subscriptionPlace, WirePlace.text]
    simp only [String.append_assoc]
    exact Carries.self.prepend _
  exact hline.render_line ([""] ++ indent 4 text.comment ++ indent 4 text.annotations) _

theorem carries_domainFile {version : String} {d : Plan.Domain} {file : File}
    (h : domainFile o version d = .ok file) :
    Carries file.text ((unitPlaces o d).map WirePlace.text) := by
  obtain ⟨types, htypes, h⟩ := Outcome.bind_eq_ok.1 h
  obtain ⟨methods, hmethods, h⟩ := Outcome.bind_eq_ok.1 h
  obtain ⟨subscriptions, hsubscriptions, h⟩ := Outcome.bind_eq_ok.1 h
  rw [← Outcome.pure_eq_ok.1 h]
  have htypeLines := Carries.render_flatMap ((Outcome.mapM_eq_ok.1 htypes).imp fun _ _ =>
    carries_dataTypeText)
  have hmethodLines := Carries.render_flatMap ((Outcome.mapM_eq_ok.1 hmethods).imp fun _ _ =>
    carries_methodLines)
  have hsubscriptionLines := Carries.render_flatMap
    ((Outcome.mapM_eq_ok.1 hsubscriptions).imp fun _ _ => carries_subscriptionLines)
  have hplaces : (unitPlaces o d).map WirePlace.text =
      [] ++ (d.domain.types.flatMap fun t =>
        (typePlaces o (scopeOf o d.domain) t).map WirePlace.text) ++
      (d.methods.flatMap fun m =>
        (m.parameters.map (parameterPlace (scopeOf o d.domain))).map WirePlace.text) ++
      (d.subscriptions.flatMap fun s =>
        [(subscriptionPlace (scopeOf o d.domain) s).text]) ++ [] := by
    simp only [unitPlaces, List.map_append, List.map_flatMap, List.nil_append, List.append_nil,
      ← List.map_eq_flatMap, List.map_map, Function.comp_def]
  rw [hplaces]
  exact (((Carries.nil.render_append htypeLines).render_append hmethodLines).render_append
    hsubscriptionLines).render_append .nil

end

/-- Every literal gives the text that it was written for, wherever it stands, and different texts
give different values. The text of a unit carries all wire names of its plan as such literals, in
annotations and constants. -/
theorem wire_names_read_back :
    (∀ wire, IsLiteralOf (stringLiteral wire) wire) ∧ Function.Injective units ∧
      ∀ {o : Options} {version : String} {d : Plan.Domain} {file : File},
        domainFile o version d = .ok file →
          Carries file.text ((unitPlaces o d).map WirePlace.text) ∧
            (unitPlaces o d).map WirePlace.wire = unitWireNames o d :=
  ⟨isLiteralOf_stringLiteral, units_injective, fun {o _ d _} h =>
    ⟨carries_domainFile h, map_wire_unitPlaces o d⟩⟩

/-- Wire names that look like an escape, end a line and hold quotes. -/
def escapedNames : Plan.Domain where
  domain :=
    { name := "Log"
      types := [
        { domain := "Log", name := "Mark", kind := .enumeration, values := ["\\u0022", "a\nb"] }]
      commands := []
      events := [] }
  methods := [
    { name := "add", returns := none,
      parameters := [{ name := "\"text\"", type := .opaqueValue }] }]
  subscriptions := [
    { name := "onAdded", eventName := "added\\", payload := ⟨"Log", "Added", .record⟩ }]

theorem wire_names_read_back_escaped :
    ∃ file, domainFile { package := "p", jackson := true } "" escapedNames = .ok file ∧
      Carries file.text [
        "@JsonProperty(\"\\\\u0022\")", "U0022(\"\\\\u0022\")", "@JsonProperty(\"a\\nb\")",
        "A_B(\"a\\nb\")", "@ParamName(\"\\\"text\\\"\")", "@EventName(\"added\\\\\")"] ∧
      IsLiteralOf "\"\\\\u0022\"" "\\u0022" := by
  have hok : (domainFile { package := "p", jackson := true } "" escapedNames).isOk = true := by
    decide +kernel
  obtain ⟨file, hfile⟩ := Outcome.exists_eq_ok_of_isOk hok
  obtain ⟨hliteral, -, hcarries⟩ := wire_names_read_back
  have hplaces : (unitPlaces { package := "p", jackson := true } escapedNames).map WirePlace.text =
      ["@JsonProperty(\"\\\\u0022\")", "U0022(\"\\\\u0022\")", "@JsonProperty(\"a\\nb\")",
        "A_B(\"a\\nb\")", "@ParamName(\"\\\"text\\\"\")", "@EventName(\"added\\\\\")"] := by
    decide +kernel
  refine ⟨file, hfile, ?_, hliteral "\\u0022"⟩
  rw [← hplaces]
  exact (hcarries hfile).1

end WireBindings.Target.Java
