import WireBindings.Proofs.Binding.Mentions
import WireBindings.Proofs.Binding.Transport

/-!
# Names without dots

A dot separates the domain of a reference from its type, so no declared type with a dot in its name
is ever referred to, and the names that binding makes up hold none.
-/

namespace WireBindings.Binding.Context

open Schema (Document Resolution Shape)

section

variable {doc : Document} {r : Resolution} {c : Context} (hr : Resolution.ofDocument doc = .ok r)
  (hc : ofResolution r = .ok c)

include hr hc

theorem dot_not_mem_of_nameAt {domain : String} {path : ShapePath} {name : String}
    (h : c.nameAt domain path = .ok name) : '.' ∉ name.toList := by
  obtain ⟨d, hd, rfl⟩ := exists_domain_of_nameAt hr hc h
  exact (isWordText_of_nameAt hr hc hd h).dot_not_mem

theorem Unfolds.dot_not_mem {domain : String} {path : ShapePath} {shape : Shape} {type : Descriptor}
    (h : c.Unfolds domain path shape type) {n : TypeName} (hn : type.namedType? = some n) :
    '.' ∉ n.name.toList := by
  obtain ⟨rfl, -, -⟩ := ofResolution_eq_ok hc
  have hid : ∀ {owner reference key}, c.resolution.target? owner reference = some key →
      '.' ∉ key.id.toList := by
    intro owner reference key htarget
    obtain ⟨d, -, -, -, hleads⟩ := (Resolution.target?_eq_some_iff hr).1 htarget
    exact hleads.dot_not_mem
  induction h with
  | scalar domain path kind => cases kind <;> cases hn
  | enumeration literals hname =>
      obtain rfl := Option.some.inj hn
      exact dot_not_mem_of_nameAt hr hc hname
  | record properties hname =>
      obtain rfl := Option.some.inj hn
      exact dot_not_mem_of_nameAt hr hc hname
  | array h ih => exact ih hn
  | toEnumeration htarget ht hshape =>
      obtain rfl := Option.some.inj hn
      exact hid htarget
  | toRecord htarget ht hshape =>
      obtain rfl := Option.some.inj hn
      exact hid htarget
  | toRecursive htarget ht halias hloop =>
      obtain rfl := Option.some.inj hn
      exact hid htarget
  | toBody htarget ht halias hloop h ih => exact ih hn

/-- A declared name may have dots, but then no reference leads to it. -/
theorem Bound.dot_not_mem_of_mem_mentioned {d : Schema.Domain} (hd : d ∈ doc.domains)
    {bound : Domain} (h : c.Bound d bound) {n : TypeName} (hn : n ∈ bound.mentioned) :
    '.' ∉ n.name.toList := by
  obtain ⟨type, htype, hn⟩ := List.mem_filterMap.1 hn
  cases h.describes hr hc hd type htype with
  | shape hstands hunfolds => exact hunfolds.dot_not_mem hr hc hn
  | subject hs hst horigin =>
      obtain rfl := Option.some.inj hn
      obtain ⟨path, hname⟩ := hst.exists_nameAt horigin
      exact dot_not_mem_of_nameAt hr hc hname

end

end WireBindings.Binding.Context
