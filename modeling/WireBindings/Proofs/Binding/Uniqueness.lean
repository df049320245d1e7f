import WireBindings.Proofs.Binding.Mentions

/-!
# What is bound is determined

A context leaves no choice: a shape has at most one unfolding, and a subject at most one data type.
-/

namespace WireBindings.Binding.Context

open Schema (Shape Property TypeKey TypeDeclaration)

variable {c : Context} {domain : String}

/-- A reference ends where it leads to, unless that is an alias that is expanded. -/
theorem Unfolds.of_reference {target : String} {path : ShapePath} {type : Descriptor}
    {key : TypeKey} {t : TypeDeclaration}
    (h : c.Unfolds domain path (.reference target) type)
    (htarget : c.resolution.target? domain target = some key)
    (ht : c.resolution.table.find? key = some t) :
    (∃ literals, t.shape = .enumeration literals ∧
      type = .named ⟨key.domain, key.id, .enumeration⟩) ∨
    (∃ properties, t.shape = .record properties ∧ type = .named ⟨key.domain, key.id, .record⟩) ∨
    (t.shape.IsAlias ∧ Relation.TransGen c.resolution.LeadsTo key key ∧
      type = .named ⟨key.domain, key.id, .alias⟩) ∨
    (t.shape.IsAlias ∧ ¬ Relation.TransGen c.resolution.LeadsTo key key ∧
      c.Unfolds key.domain (.ofType key.id) t.shape type) := by
  have hkey : ∀ {key'}, c.resolution.target? domain target = some key' → key' = key :=
    fun h => Option.some.inj (h.symm.trans htarget)
  have hfind : ∀ {t'}, c.resolution.table.find? key = some t' → t' = t :=
    fun h => Option.some.inj (h.symm.trans ht)
  cases h with
  | toEnumeration htarget' ht' hshape =>
      obtain rfl := hkey htarget'
      obtain rfl := hfind ht'
      exact .inl ⟨_, hshape, rfl⟩
  | toRecord htarget' ht' hshape =>
      obtain rfl := hkey htarget'
      obtain rfl := hfind ht'
      exact .inr (.inl ⟨_, hshape, rfl⟩)
  | toRecursive htarget' ht' halias hloop =>
      obtain rfl := hkey htarget'
      obtain rfl := hfind ht'
      exact .inr (.inr (.inl ⟨halias, hloop, rfl⟩))
  | toBody htarget' ht' halias hloop h =>
      obtain rfl := hkey htarget'
      obtain rfl := hfind ht'
      exact .inr (.inr (.inr ⟨halias, hloop, h⟩))

theorem Unfolds.unique {path : ShapePath} {shape : Shape} {type type' : Descriptor}
    (h : c.Unfolds domain path shape type) (h' : c.Unfolds domain path shape type') :
    type = type' := by
  have henumeration : ∀ {shape : Shape} {literals}, shape = .enumeration literals →
      ¬ shape.IsAlias := by
    rintro _ literals rfl
    exact Shape.not_isAlias_enumeration literals
  have hrecord : ∀ {shape : Shape} {properties}, shape = .record properties →
      ¬ shape.IsAlias := by
    rintro _ properties rfl
    exact Shape.not_isAlias_record properties
  induction h generalizing type' with
  | scalar domain path kind =>
      cases h'
      rfl
  | enumeration literals hname =>
      cases h' with
      | enumeration _ hname' => rw [Except.ok.inj (hname.symm.trans hname')]
  | record properties hname =>
      cases h' with
      | record _ hname' => rw [Except.ok.inj (hname.symm.trans hname')]
  | array h ih =>
      cases h' with
      | array h' => rw [ih h']
  | toEnumeration htarget ht hshape =>
      rcases h'.of_reference htarget ht with ⟨_, -, rfl⟩ | ⟨_, hshape', -⟩ | h' | h'
      · rfl
      · cases hshape.symm.trans hshape'
      · exact absurd h'.1 (henumeration hshape)
      · exact absurd h'.1 (henumeration hshape)
  | toRecord htarget ht hshape =>
      rcases h'.of_reference htarget ht with ⟨_, hshape', -⟩ | ⟨_, -, rfl⟩ | h' | h'
      · cases hshape.symm.trans hshape'
      · rfl
      · exact absurd h'.1 (hrecord hshape)
      · exact absurd h'.1 (hrecord hshape)
  | toRecursive htarget ht halias hloop =>
      rcases h'.of_reference htarget ht with ⟨_, hshape, -⟩ | ⟨_, hshape, -⟩ | ⟨-, -, rfl⟩ | h'
      · exact absurd halias (henumeration hshape)
      · exact absurd halias (hrecord hshape)
      · rfl
      · exact absurd hloop h'.2.1
  | toBody htarget ht halias hloop h ih =>
      rcases h'.of_reference htarget ht with ⟨_, hshape, -⟩ | ⟨_, hshape, -⟩ | h' | ⟨-, -, h'⟩
      · exact absurd halias (henumeration hshape)
      · exact absurd halias (hrecord hshape)
      · exact absurd h'.2.1 hloop
      · exact ih h'

theorem FieldOf.unique {path : ShapePath} {p : Property} {x x' : Field}
    (h : c.FieldOf domain path p x) (h' : c.FieldOf domain path p x') : x = x' := by
  obtain ⟨name, type, optional, advisory⟩ := x
  obtain ⟨name', type', optional', advisory'⟩ := x'
  obtain rfl : name = name' := h.name.trans h'.name.symm
  obtain rfl : type = type' := h.type.unique h'.type
  obtain rfl : optional = optional' := h.optional.trans h'.optional.symm
  obtain rfl : advisory = advisory' := h.advisory.trans h'.advisory.symm
  rfl

theorem FieldsOf.unique {path : ShapePath} {properties : List Property}
    {fields fields' : List Field} (h : c.FieldsOf domain path properties fields)
    (h' : c.FieldsOf domain path properties fields') : fields = fields' := by
  have hfield : Relator.RightUnique (c.FieldOf domain path) := fun _ _ _ hx hx' => hx.unique hx'
  exact List.right_unique_forall₂' hfield h h'

theorem Realizes.unique {s : Subject} {t t' : DataType} (h : c.Realizes domain s t)
    (h' : c.Realizes domain s t') : t = t' := by
  cases h with
  | enumeration hshape =>
      cases h' with
      | enumeration hshape' => rw [Shape.enumeration.inj (hshape.symm.trans hshape')]
      | record hshape' hfields' => cases hshape.symm.trans hshape'
  | record hshape hfields =>
      cases h' with
      | enumeration hshape' => cases hshape.symm.trans hshape'
      | record hshape' hfields' =>
          obtain rfl := Shape.record.inj (hshape.symm.trans hshape')
          rw [hfields.unique hfields']
  | recursive htarget =>
      cases h' with
      | recursive htarget' => rw [htarget.unique htarget']
  | writtenEnumeration hname =>
      cases h' with
      | writtenEnumeration hname' => rw [Except.ok.inj (hname.symm.trans hname')]
  | writtenRecord hname hfields =>
      cases h' with
      | writtenRecord hname' hfields' =>
          rw [Except.ok.inj (hname.symm.trans hname'), hfields.unique hfields']
  | result hname hfields =>
      cases h' with
      | result hname' hfields' =>
          rw [Except.ok.inj (hname.symm.trans hname'), hfields.unique hfields']
  | payload hname hfields =>
      cases h' with
      | payload hname' hfields' =>
          rw [Except.ok.inj (hname.symm.trans hname'), hfields.unique hfields']

end WireBindings.Binding.Context
