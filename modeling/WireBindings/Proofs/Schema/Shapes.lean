import WireBindings.Schema.References

/-!
# Shapes and their members

Induction over shapes by their members, and the split of declared types into those with a name of
their own and aliases.
-/

namespace WireBindings.Schema

@[elab_as_elim, induction_eliminator]
theorem Shape.members_induction {motive : Shape → Prop}
    (reference : ∀ target, motive (.reference target))
    (scalar : ∀ kind, motive (.scalar kind))
    (enumeration : ∀ literals, motive (.enumeration literals))
    (record : ∀ properties : List Property,
      (∀ p ∈ properties, motive p.type) → motive (.record properties))
    (array : ∀ item, motive item → motive (.array item)) :
    ∀ shape, motive shape
  | .reference target => reference target
  | .scalar kind => scalar kind
  | .enumeration literals => enumeration literals
  | .record properties => record properties fun p _ =>
      members_induction reference scalar enumeration record array p.type
  | .array item => array item (members_induction reference scalar enumeration record array item)
termination_by shape => sizeOf shape
decreasing_by
  · rename_i hp
    have hlt := List.sizeOf_lt_of_mem hp
    cases p
    simp only [Member.mk.sizeOf_spec, Shape.record.sizeOf_spec] at hlt ⊢
    omega
  · simp

theorem memberReferences_eq_flatMap (path : String) (properties : List Property) :
    memberReferences path properties =
      properties.flatMap fun p => p.type.references (path ++ "." ++ p.name) := by
  induction properties with
  | nil => rfl
  | cons p properties ih =>
      obtain ⟨name, type, optional, advisory⟩ := p
      rw [memberReferences, ih]
      rfl

def Shape.IsAlias (shape : Shape) : Prop := shape.role = .array ∨ shape.role = .primitive

instance (shape : Shape) : Decidable shape.IsAlias := instDecidableOr

theorem Shape.enumeration_or_record_or_alias (shape : Shape) :
    (∃ literals, shape = .enumeration literals) ∨ (∃ properties, shape = .record properties) ∨
      shape.IsAlias := by
  cases shape with
  | enumeration literals => exact .inl ⟨literals, rfl⟩
  | record properties => exact .inr (.inl ⟨properties, rfl⟩)
  | array item => exact .inr (.inr (.inl rfl))
  | reference target => exact .inr (.inr (.inr rfl))
  | scalar kind => exact .inr (.inr (.inr rfl))

theorem Shape.not_isAlias_enumeration (literals : List String) :
    ¬ (Shape.enumeration literals).IsAlias := by
  rintro (h | h) <;> cases h

theorem Shape.not_isAlias_record (properties : List Property) :
    ¬ (Shape.record properties).IsAlias := by
  rintro (h | h) <;> cases h

end WireBindings.Schema
