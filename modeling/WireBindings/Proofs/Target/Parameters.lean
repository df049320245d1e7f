import WireBindings.Proofs.Plan.Signatures
import WireBindings.Proofs.Target.JavaWireNames
import WireBindings.Proofs.Target.Printable

/-!
# Parameters of printed methods

A method is printed with its parameters in declared order. In Python a star stands before the first
optional one, and what follows it is given by name. Planning lets no required parameter follow an
optional one, so the star takes the place of none of them. In Java annotations say what the wire
name of a parameter is and whether it can be left out.
-/

namespace WireBindings

open Binding (Field)

namespace Plan

theorem exists_command_of_mem_methods {policy : Overloads} {p : Binding.Protocol} {plan : Protocol}
    (h : Protocol.ofBinding policy p = .ok plan) {d : Domain} (hd : d ∈ plan.domains)
    {m : Signature} (hm : m ∈ d.methods) :
    ∃ c ∈ d.domain.commands, (m = fullSignature c ∨ m = (fullSignature c).short) ∧
      Trailing (c.parameters.map Member.parameter) := by
  obtain ⟨htrailing, rfl⟩ := Protocol.ofBinding_eq_ok_iff.1 h
  obtain ⟨declared, hdeclared, rfl⟩ := List.mem_map.1 hd
  obtain ⟨c, hc, hm⟩ := List.mem_flatMap.1 hm
  refine ⟨c, hc, ?_, ?_⟩
  · unfold signaturesOf at hm
    split at hm
    · rcases List.mem_pair.1 hm with hshort | hfull
      · exact .inr hshort
      · exact .inl hfull
    · exact .inl (List.mem_singleton.1 hm)
  · have hcallable : Callable.of declared.name c.name c.parameters ∈ p.callables :=
      List.mem_flatMap.2 ⟨declared, hdeclared, List.mem_append_left _ (List.mem_map_of_mem hc)⟩
    exact htrailing _ hcallable

theorem Trailing.required {fields : List Field} (h : Trailing (fields.map Member.parameter)) :
    Trailing ((fields.filter fun p => !p.optional).map Member.parameter) :=
  List.Pairwise.sublist (List.filter_sublist.map _) h

theorem trailing_of_mem_methods {policy : Overloads} {p : Binding.Protocol} {plan : Protocol}
    (h : Protocol.ofBinding policy p = .ok plan) {d : Domain} (hd : d ∈ plan.domains)
    {m : Signature} (hm : m ∈ d.methods) : Trailing (m.parameters.map Member.parameter) := by
  obtain ⟨c, -, rfl | rfl, htrailing⟩ := exists_command_of_mem_methods h hd hm
  · exact htrailing
  · exact htrailing.required

end Plan

/-! ## Python -/

namespace Target.Python

def Plain (domain : String) (p : Field) (text : String) : Prop :=
  ∃ type, typeText domain false p.type = .ok type ∧ text = safeName p.name "" ++ ": " ++ type

def Defaulted (domain : String) (p : Field) (text : String) : Prop :=
  ∃ type, typeText domain false p.type = .ok type ∧
    text = safeName p.name "" ++ ": typing.Optional[" ++ type ++ "] = None"

def behindStar : List String → List String
  | [] => []
  | text :: texts => "*" :: text :: texts

/-- The parameters of a method after `self`: the required ones, and then the optional ones behind
one star. -/
def Arranged (domain : String) (parameters : List Field) (texts : List String) : Prop :=
  ∃ plain defaulted,
    List.Forall₂ (Plain domain) (parameters.filter fun p => !p.optional) plain ∧
    List.Forall₂ (Defaulted domain) (parameters.filter Member.optional) defaulted ∧
    texts = plain ++ behindStar defaulted

section

variable {domain text : String} {p : Field} {parameters : List Field} {texts : List String}

theorem plain_of_parameterText (hp : p.optional = false) (h : parameterText domain p = .ok text) :
    Plain domain p text := by
  obtain ⟨type, htype, h⟩ := Outcome.bind_eq_ok.1 h
  have htext := Outcome.pure_eq_ok.1 h
  rw [hp, if_neg Bool.false_ne_true] at htext
  exact ⟨type, htype, htext.symm⟩

theorem defaulted_of_parameterText (hp : p.optional = true)
    (h : parameterText domain p = .ok text) : Defaulted domain p text := by
  obtain ⟨type, htype, h⟩ := Outcome.bind_eq_ok.1 h
  have htext := Outcome.pure_eq_ok.1 h
  rw [hp, if_pos rfl] at htext
  exact ⟨type, htype, htext.symm⟩

theorem parameterTexts_cons_eq_ok {starred : Bool}
    (h : parameterTexts domain starred (p :: parameters) = .ok texts) :
    ∃ text rest, parameterText domain p = .ok text ∧
      parameterTexts domain (starred || p.optional) parameters = .ok rest ∧
      texts = if p.optional && !starred then "*" :: text :: rest else text :: rest := by
  obtain ⟨text, htext, h⟩ := Outcome.bind_eq_ok.1 h
  obtain ⟨rest, hrest, h⟩ := Outcome.bind_eq_ok.1 h
  exact ⟨text, rest, htext, hrest, (Outcome.pure_eq_ok.1 h).symm⟩

theorem parameterTexts_starred (hall : ∀ p ∈ parameters, p.optional = true)
    (h : parameterTexts domain true parameters = .ok texts) :
    List.Forall₂ (Defaulted domain) parameters texts := by
  induction parameters generalizing texts with
  | nil =>
      obtain rfl := Except.ok.inj h
      exact .nil
  | cons p parameters ih =>
      obtain ⟨text, rest, htext, hrest, rfl⟩ := parameterTexts_cons_eq_ok h
      obtain ⟨hp, hall⟩ := List.forall_mem_cons.1 hall
      rw [Bool.not_true, Bool.and_false, if_neg Bool.false_ne_true]
      exact .cons (defaulted_of_parameterText hp htext) (ih hall hrest)

/-- Behind the star there is no required parameter, since none follows an optional one. -/
theorem arranged_of_parameterTexts (htrailing : Plan.Trailing (parameters.map Member.parameter))
    (h : parameterTexts domain false parameters = .ok texts) :
    Arranged domain parameters texts := by
  induction parameters generalizing texts with
  | nil =>
      obtain rfl := Except.ok.inj h
      exact ⟨[], [], .nil, .nil, rfl⟩
  | cons p parameters ih =>
      obtain ⟨text, rest, htext, hrest, rfl⟩ := parameterTexts_cons_eq_ok h
      obtain ⟨hafter, htrailing⟩ := Plan.trailing_cons_iff.1 htrailing
      rw [Bool.false_or] at hrest
      cases hp : p.optional with
      | true =>
          have hall : ∀ q ∈ parameters, q.optional = true := fun q hq =>
            hafter hp q.parameter (List.mem_map_of_mem hq)
          rw [hp] at hrest
          have hrest := parameterTexts_starred hall hrest
          have hrequired : parameters.filter (fun q => !q.optional) = [] := by simpa using hall
          refine ⟨[], text :: rest, ?_, ?_, rfl⟩
          · rw [List.filter_cons_of_neg (by simp [hp]), hrequired]
            exact .nil
          · rw [List.filter_cons_of_pos hp, List.filter_eq_self.2 hall]
            exact .cons (defaulted_of_parameterText hp htext) hrest
      | false =>
          rw [hp] at hrest
          obtain ⟨plain, defaulted, hplain, hdefaulted, rfl⟩ := ih htrailing hrest
          refine ⟨text :: plain, defaulted, ?_, ?_, rfl⟩
          · rw [List.filter_cons_of_pos (by simp [hp])]
            exact .cons (plain_of_parameterText hp htext) hplain
          · rw [List.filter_cons_of_neg (by simp [hp])]
            exact hdefaulted

theorem complete_of_parameterTexts {starred : Bool}
    (h : parameterTexts domain starred parameters = .ok texts) :
    ∀ p ∈ parameters, p.type.Complete := by
  induction parameters generalizing starred texts with
  | nil => simp
  | cons p parameters ih =>
      obtain ⟨text, rest, htext, hrest, -⟩ := parameterTexts_cons_eq_ok h
      obtain ⟨type, htype, -⟩ := Outcome.bind_eq_ok.1 htext
      exact List.forall_mem_cons.2 ⟨(exists_typeText_iff domain false).1 ⟨type, htype⟩, ih hrest⟩

theorem methodText_eq_ok {m : Plan.Signature} {text : MethodText}
    (h : methodText domain m = .ok text) :
    (∃ texts, parameterTexts domain false m.parameters = .ok texts ∧
      text.parameters = ", ".intercalate ("self" :: texts)) ∧
    ∀ d, m.returns = some d → d.Complete := by
  obtain ⟨texts, htexts, h⟩ := Outcome.bind_eq_ok.1 h
  cases hreturns : m.returns with
  | none =>
      simp only [hreturns] at h
      obtain rfl := Outcome.pure_eq_ok.1 h
      exact ⟨⟨texts, htexts, rfl⟩, by simp⟩
  | some d =>
      simp only [hreturns] at h
      obtain ⟨returns, hd, h⟩ := Outcome.bind_eq_ok.1 h
      obtain rfl := Outcome.pure_eq_ok.1 h
      refine ⟨⟨texts, htexts, rfl⟩, ?_⟩
      rintro _ ⟨⟩
      exact (exists_typeText_iff domain false).1 ⟨returns, hd⟩

theorem exists_methodText_iff {m : Plan.Signature} :
    (∃ text, methodText domain m = .ok text) ↔ m.Complete := by
  constructor
  · rintro ⟨text, h⟩
    obtain ⟨⟨texts, htexts, -⟩, hreturns⟩ := methodText_eq_ok h
    exact ⟨complete_of_parameterTexts htexts, hreturns⟩
  · exact exists_methodText domain

end

end Target.Python

/-! ## Java -/

namespace Target.Java

/-- The annotations of a parameter: one for its wire name and, if the parameter is optional, one
that says so. -/
structure Annotated (scope : Scope) (p : Field) (annotations : List String) : Prop where
  wireName : ∃ markers, annotations = markers ++ [(parameterPlace scope p).text] ∧
    ∀ marker ∈ markers, ∀ wire,
      marker ≠ (WirePlace.annotated (scope.reference "ParamName") wire).text
  optional : annotations.count ("@" ++ scope.reference "Optional") = if p.optional then 1 else 0

def Declared (scope : Scope) (p : Field) (text : String) : Prop :=
  ∃ annotations type, Annotated scope p annotations ∧ typeText scope p.type = .ok type ∧
    text = " ".intercalate annotations ++ " " ++ type ++ " " ++ safeIdentifier p.name ""

section

variable {scope : Scope}

/-- However a name is spelled, the annotation ends in it. -/
theorem suffix_marker (scope : Scope) (name : String) :
    name.toList <:+ ("@" ++ scope.reference name).toList := by
  have hprefix : ∃ before, scope.reference name = before ++ name := by
    unfold Scope.reference
    split
    · exact ⟨"", (String.empty_append).symm⟩
    · split
      · exact ⟨_, rfl⟩
      · exact ⟨_, rfl⟩
  obtain ⟨before, hbefore⟩ := hprefix
  rw [hbefore, String.toList_append, String.toList_append]
  exact (List.suffix_append _ _).trans (List.suffix_append _ _)

theorem suffix_placeText (name wire : String) :
    [')'] <:+ (WirePlace.annotated name wire).text.toList := by
  rw [WirePlace.text, String.toList_append]
  exact List.suffix_append _ _

theorem ne_of_suffix {s t : String} {a b : List Char} (hs : a <:+ s.toList) (ht : b <:+ t.toList)
    (hab : ¬ a <:+ b) (hba : ¬ b <:+ a) : s ≠ t := by
  rintro rfl
  rcases List.suffix_or_suffix_of_suffix hs ht with h | h
  · exact hab h
  · exact hba h

theorem exists_name_of_mem_annotations {a : Advisory} {optional : Bool} {marker : String}
    (h : marker ∈ scope.annotations a optional) :
    ∃ name ∈ ["Experimental", "Deprecated", "Optional"], marker = "@" ++ scope.reference name := by
  simp only [Scope.annotations, List.mem_append] at h
  rcases h with (h | h) | h
  all_goals
    split at h
    · exact ⟨_, by simp, List.mem_singleton.1 h⟩
    · cases h

theorem marker_ne_text {marker : String} {a : Advisory} {optional : Bool}
    (h : marker ∈ scope.annotations a optional) (name wire : String) :
    marker ≠ (WirePlace.annotated name wire).text := by
  obtain ⟨word, hword, rfl⟩ := exists_name_of_mem_annotations h
  have hends : ∀ word ∈ ["Experimental", "Deprecated", "Optional"],
      ¬ word.toList <:+ [')'] ∧ ¬ [')'] <:+ word.toList := by decide
  obtain ⟨hab, hba⟩ := hends word hword
  exact ne_of_suffix (suffix_marker scope word) (suffix_placeText name wire) hab hba

theorem count_optional_annotations (scope : Scope) (a : Advisory) (optional : Bool) :
    (scope.annotations a optional).count ("@" ++ scope.reference "Optional") =
      if optional then 1 else 0 := by
  have hother : ∀ word ∈ ["Experimental", "Deprecated"], ∀ flag : Bool,
      (if flag then ["@" ++ scope.reference word] else []).count
        ("@" ++ scope.reference "Optional") = 0 := by
    intro word hword flag
    have hends : ∀ word ∈ ["Experimental", "Deprecated"],
        ¬ "Optional".toList <:+ word.toList ∧ ¬ word.toList <:+ "Optional".toList := by decide
    obtain ⟨hab, hba⟩ := hends word hword
    have hne := ne_of_suffix (suffix_marker scope "Optional") (suffix_marker scope word)
      hab hba
    apply List.count_eq_zero_of_not_mem
    split
    · exact fun h => hne (List.mem_singleton.1 h)
    · exact List.not_mem_nil
  rw [Scope.annotations, List.count_append, List.count_append, hother "Experimental" (by simp),
    hother "Deprecated" (by simp), zero_add, zero_add]
  split
  · exact List.count_singleton_self
  · rfl

theorem annotated_annotations (scope : Scope) (p : Field) :
    Annotated scope p
      (scope.annotations p.advisory p.optional ++ [(parameterPlace scope p).text]) where
  wireName := ⟨_, rfl, fun _ hmarker => marker_ne_text hmarker _⟩
  optional := by
    have hends : ¬ "Optional".toList <:+ [')'] ∧ ¬ [')'] <:+ "Optional".toList := by decide
    have hne : "@" ++ scope.reference "Optional" ≠ (parameterPlace scope p).text :=
      ne_of_suffix (suffix_marker scope "Optional") (suffix_placeText _ _) hends.1 hends.2
    have hnone : [(parameterPlace scope p).text].count ("@" ++ scope.reference "Optional") = 0 :=
      List.count_eq_zero_of_not_mem fun h => hne (List.mem_singleton.1 h)
    rw [List.count_append, hnone, add_zero, count_optional_annotations]

theorem declared_of_parameterText {p : Field} {text : String}
    (h : parameterText scope p = .ok text) : Declared scope p text := by
  obtain ⟨type, htype, h⟩ := Outcome.bind_eq_ok.1 h
  exact ⟨_, type, annotated_annotations scope p, htype, (Outcome.pure_eq_ok.1 h).symm⟩

theorem methodText_eq_ok {m : Plan.Signature} {text : MethodText}
    (h : methodText scope m = .ok text) :
    (∃ texts, List.Forall₂ (Declared scope) m.parameters texts ∧
      text.parameters = ", ".intercalate texts) ∧ m.Complete := by
  obtain ⟨texts, htexts, h⟩ := Outcome.bind_eq_ok.1 h
  have hdeclared := (Outcome.mapM_eq_ok.1 htexts).imp fun _ _ => declared_of_parameterText
  have hparameters : ∀ p ∈ m.parameters, p.type.Complete := by
    intro p hp
    obtain ⟨_, -, _, type, -, htype, -⟩ := Outcome.exists_right_of_forall₂ hdeclared hp
    exact (exists_typeText_iff scope).1 ⟨type, htype⟩
  cases hreturns : m.returns with
  | none =>
      simp only [hreturns] at h
      obtain rfl := Outcome.pure_eq_ok.1 h
      exact ⟨⟨texts, hdeclared, rfl⟩, hparameters, by simp [hreturns]⟩
  | some d =>
      simp only [hreturns] at h
      obtain ⟨returns, hd, h⟩ := Outcome.bind_eq_ok.1 h
      obtain rfl := Outcome.pure_eq_ok.1 h
      refine ⟨⟨texts, hdeclared, rfl⟩, hparameters, ?_⟩
      rw [hreturns]
      rintro _ ⟨⟩
      exact (exists_typeText_iff scope).1 ⟨returns, hd⟩

theorem exists_methodText_iff {m : Plan.Signature} :
    (∃ text, methodText scope m = .ok text) ↔ m.Complete :=
  ⟨fun ⟨_, h⟩ => (methodText_eq_ok h).2, exists_methodText scope⟩

end

end Target.Java

/-! ## Methods of a plan -/

namespace Plan

open Target

/-- How a method is printed in the module and in any interface. -/
structure Printed (domain : String) (m : Signature) : Prop where
  python_iff : (∃ text, Python.methodText domain m = .ok text) ↔ m.Complete
  python : ∀ text, Python.methodText domain m = .ok text →
    ∃ texts, Python.Arranged domain m.parameters texts ∧
      text.parameters = ", ".intercalate ("self" :: texts)
  java_iff : ∀ scope, (∃ text, Java.methodText scope m = .ok text) ↔ m.Complete
  java : ∀ scope text, Java.methodText scope m = .ok text →
    ∃ texts, List.Forall₂ (Java.Declared scope) m.parameters texts ∧
      text.parameters = ", ".intercalate texts

theorem printed_of_trailing {domain : String} {m : Signature}
    (h : Trailing (m.parameters.map Member.parameter)) : Printed domain m where
  python_iff := Python.exists_methodText_iff
  python text htext := by
    obtain ⟨⟨texts, htexts, hlist⟩, -⟩ := Python.methodText_eq_ok htext
    exact ⟨texts, Python.arranged_of_parameterTexts h htexts, hlist⟩
  java_iff _ := Java.exists_methodText_iff
  java _ _ htext := (Java.methodText_eq_ok htext).1

/-- The methods of a plan are printed with the parameters of their commands: in Python with the
optional ones behind one star, in Java with the annotations of each. -/
theorem call_surface_kept {policy : Overloads} {p : Binding.Protocol} {plan : Protocol}
    (h : Protocol.ofBinding policy p = .ok plan) {d : Domain} (hd : d ∈ plan.domains)
    {m : Signature} (hm : m ∈ d.methods) :
    (∃ c ∈ d.domain.commands, m = fullSignature c ∨ m = (fullSignature c).short) ∧
      Printed d.domain.name m := by
  obtain ⟨c, hc, heither, -⟩ := exists_command_of_mem_methods h hd hm
  exact ⟨⟨c, hc, heither⟩, printed_of_trailing (trailing_of_mem_methods h hd hm)⟩

def navigation : Binding.Protocol where
  domains := [
    { name := "Page"
      types := []
      commands := [
        { name := "navigate"
          parameters := [
            { name := "url", type := .primitive .string },
            { name := "class", type := .primitive .integer, optional := true }]
          result := none }]
      events := [] }]

theorem call_surface_kept_navigation :
    ∃ plan, Protocol.ofBinding .tiered navigation = .ok plan ∧
      (∀ d ∈ plan.domains, ∀ m ∈ d.methods, Printed d.domain.name m) ∧
      plan.domains.flatMap (fun d => d.methods.map fun m =>
        ((Python.methodText "Page" m).toOption.map Python.MethodText.parameters,
          (Java.methodText ⟨"p", "Page", []⟩ m).toOption.map Java.MethodText.parameters)) =
        [(some "self, url: str", some "@ParamName(\"url\") String url"),
          (some "self, url: str, *, class_: typing.Optional[int] = None",
            some "@ParamName(\"url\") String url, @Optional @ParamName(\"class\") Integer _class")]
      := by
  have hplan : Protocol.ofBinding .tiered navigation =
      .ok (Protocol.planOf .tiered navigation) := by decide +kernel
  refine ⟨_, hplan, fun d hd m hm => (call_surface_kept hplan hd hm).2, by decide +kernel⟩

end Plan

end WireBindings
