import WireBindings.Proofs.Outcome
import WireBindings.Schema.Reader
import WireBindings.Schema.Writer

/-!
# Entries of a node

A node is read by its keys alone, so it can be put together from parts with different keys, and each
part is read as if it stood alone. Whatever is left out of a written node is read as its default.
-/

namespace WireBindings.Schema

open Json (Value)

theorem field?_append (key : String) (node node' : Entries) :
    Value.field? key (node ++ node') = (Value.field? key node).or (Value.field? key node') := by
  induction node with
  | nil => rfl
  | cons e node ih =>
      rw [List.cons_append, Value.field?, Value.field?]
      split
      · rfl
      · exact ih

theorem field?_eq_none {key : String} {node : Entries} (h : key ∉ node.map Prod.fst) :
    Value.field? key node = none := by
  induction node with
  | nil => rfl
  | cons e node ih =>
      rw [List.map_cons, List.mem_cons, not_or] at h
      rw [Value.field?, if_neg (Ne.symm h.1), ih h.2]

theorem field?_filter_ne (key removed : String) (node : Entries) :
    Value.field? key (node.filter fun entry => entry.1 ≠ removed) =
      if key = removed then none else Value.field? key node := by
  induction node with
  | nil => simp [Value.field?]
  | cons e node ih =>
      by_cases he : e.1 = removed
      · rw [List.filter_cons_of_neg (by simpa using he), ih, Value.field?]
        by_cases hkey : key = removed
        · rw [if_pos hkey, if_pos hkey]
        · rw [if_neg hkey, if_neg hkey, if_neg (he ▸ Ne.symm hkey)]
      · rw [List.filter_cons_of_pos (by simpa using he), Value.field?, Value.field?, ih]
        by_cases hkey : key = removed
        · rw [if_pos hkey, if_pos hkey, if_neg (hkey ▸ he)]
        · rw [if_neg hkey, if_neg hkey]

/-! ## Keys of a node -/

def KeysIn (node : Entries) (keys : List String) : Prop := (node.map Prod.fst).Sublist keys

theorem KeysIn.append {node node' : Entries} {keys keys' : List String} (h : KeysIn node keys)
    (h' : KeysIn node' keys') : KeysIn (node ++ node') (keys ++ keys') := by
  unfold KeysIn
  rw [List.map_append]
  exact List.Sublist.append h h'

theorem KeysIn.cons {node : Entries} {keys : List String} (h : KeysIn node keys) (key : String)
    (v : Value) : KeysIn ((key, v) :: node) (key :: keys) :=
  List.Sublist.cons_cons key h

def entryIf (b : Bool) (key : String) (v : Value) : Entries := if b then [(key, v)] else []

theorem field?_entryIf (b : Bool) (key : String) (v : Value) :
    Value.field? key (entryIf b key v) = if b then some v else none := by
  cases b
  · rfl
  · simp [entryIf, Value.field?]

theorem keysIn_entryIf (b : Bool) (key : String) (v : Value) : KeysIn (entryIf b key v) [key] := by
  cases b
  · exact List.nil_sublist _
  · exact List.Sublist.refl _

theorem listEntry_eq (key : String) (items : List Value) :
    listEntry key items = entryIf (!items.isEmpty) key (.array items) := by
  unfold listEntry entryIf
  cases items.isEmpty <;> rfl

theorem keysIn_listEntry (key : String) (items : List Value) :
    KeysIn (listEntry key items) [key] := by
  rw [listEntry_eq]
  exact keysIn_entryIf _ _ _

def advisoryKeys : List String := ["description", "experimental", "deprecated"]

theorem advisoryEntries_eq (a : Advisory) :
    advisoryEntries a = entryIf (!a.description.isEmpty) "description" (.text a.description) ++
      entryIf a.experimental "experimental" (.bool true) ++
      entryIf a.deprecated "deprecated" (.bool true) := by
  unfold advisoryEntries entryIf
  cases a.description.isEmpty <;> rfl

theorem keysIn_advisoryEntries (a : Advisory) : KeysIn (advisoryEntries a) advisoryKeys := by
  rw [advisoryEntries_eq]
  exact ((keysIn_entryIf _ _ _).append (keysIn_entryIf _ _ _)).append (keysIn_entryIf _ _ _)

def shapeKeys : List String := ["$ref", "type", "items", "enum", "properties"]

theorem keysIn_shapeEntries (shape : Shape) : KeysIn (shapeEntries shape) shapeKeys := by
  have hkeys : (shapeEntries shape).map Prod.fst ∈
      [["$ref"], ["type"], ["type", "enum"], ["type", "properties"], ["type", "items"]] := by
    cases shape <;> simp [shapeEntries]
  have hall : ∀ keys ∈ [["$ref"], ["type"], ["type", "enum"], ["type", "properties"],
      ["type", "items"]], keys.Sublist shapeKeys := by
    decide
  exact hall _ hkeys

/-! ## Nodes that agree on keys -/

/-- Two nodes that hold the same under some keys. -/
def AgreeOn (keys : List String) (node node' : Entries) : Prop :=
  ∀ key ∈ keys, Value.field? key node = Value.field? key node'

namespace AgreeOn

theorem refl (keys : List String) (node : Entries) : AgreeOn keys node node := fun _ _ => rfl

theorem trans {keys : List String} {node node' node'' : Entries} (h : AgreeOn keys node node')
    (h' : AgreeOn keys node' node'') : AgreeOn keys node node'' :=
  fun key hkey => (h key hkey).trans (h' key hkey)

theorem mono {keys keys' : List String} {node node' : Entries} (h : AgreeOn keys node node')
    (hsubset : ∀ key ∈ keys', key ∈ keys) : AgreeOn keys' node node' :=
  fun key hkey => h key (hsubset key hkey)

theorem cons {keys : List String} {key : String} (v : Value) (node : Entries)
    (hkey : key ∉ keys) : AgreeOn keys ((key, v) :: node) node := by
  intro other hother
  have hne : key ≠ other := fun heq => hkey (heq ▸ hother)
  rw [Value.field?, if_neg hne]

theorem after {keys others : List String} {before : Entries} (node : Entries)
    (hbefore : KeysIn before others) (hdisjoint : ∀ key ∈ keys, key ∉ others) :
    AgreeOn keys (before ++ node) node := by
  intro key hkey
  have hnone := field?_eq_none fun hmem => hdisjoint key hkey (List.Sublist.mem hmem hbefore)
  rw [field?_append, hnone, Option.none_or]

theorem before {keys others : List String} {node node' after : Entries}
    (h : AgreeOn keys node node') (hafter : KeysIn after others)
    (hdisjoint : ∀ key ∈ keys, key ∉ others) : AgreeOn keys (node ++ after) node' := by
  intro key hkey
  have hnone := field?_eq_none fun hmem => hdisjoint key hkey (List.Sublist.mem hmem hafter)
  rw [field?_append, hnone, Option.or_none]
  exact h key hkey

end AgreeOn

/-! ## Reading what was written -/

theorem requiredText_eq_ok {node : Entries} {key s : String} {loc : Location}
    (h : Value.field? key node = some (.text s)) : requiredText node key loc = .ok s := by
  unfold requiredText textField? optionalField
  rw [h]
  rfl

/-- What is written under a key on a condition is read back, or found missing. -/
theorem optionalField_eq_ok {α : Type} {wanted : Wanted} {ofValue? : Value → Option α}
    {node : Entries} {key : String} {v : Value} {a : α} {b : Bool} {loc : Location}
    (hv : ofValue? v = some a) (h : AgreeOn [key] node (entryIf b key v)) :
    optionalField wanted ofValue? node key loc = .ok (if b then some a else none) := by
  have hkey := h key List.mem_cons_self
  rw [field?_entryIf] at hkey
  unfold optionalField
  rw [hkey]
  cases b with
  | false => rfl
  | true => simp only [if_true, hv]

theorem flagField_eq_ok {node : Entries} {key : String} {b : Bool} {loc : Location}
    (h : AgreeOn [key] node (entryIf b key (.bool true))) : flagField node key loc = .ok b := by
  rw [flagField, optionalField_eq_ok (Value.bool?_eq_some.2 rfl) h]
  cases b <;> rfl

theorem listField_eq_ok {node : Entries} {key : String} {items : List Value} {loc : Location}
    (h : AgreeOn [key] node (listEntry key items)) : listField node key loc = .ok items := by
  rw [listEntry_eq] at h
  rw [listField, listField?, optionalField_eq_ok (Value.items?_eq_some.2 rfl) h]
  cases items <;> rfl

theorem textField?_eq_ok {node : Entries} {key s : String} (loc : Location)
    (h : AgreeOn [key] node (entryIf (!s.isEmpty) key (.text s))) :
    ∃ found, textField? node key loc = .ok found ∧ found.getD "" = s := by
  refine ⟨_, optionalField_eq_ok (Value.text?_eq_some.2 rfl) h, ?_⟩
  cases hs : s.isEmpty with
  | true => exact (String.isEmpty_iff.1 hs).symm
  | false => rfl

theorem readAdvisory_eq_ok {node : Entries} {a : Advisory} {loc : Location}
    (h : AgreeOn advisoryKeys node (advisoryEntries a)) : readAdvisory node loc = .ok a := by
  rw [advisoryEntries_eq] at h
  have hdescription : AgreeOn ["description"] node
      (entryIf (!a.description.isEmpty) "description" (.text a.description)) :=
    (h.mono (by decide)).trans
      (((AgreeOn.refl _ _).before (keysIn_entryIf _ _ _) (by decide)).before
        (keysIn_entryIf _ _ _) (by decide))
  have hexperimental : AgreeOn ["experimental"] node
      (entryIf a.experimental "experimental" (.bool true)) :=
    (h.mono (by decide)).trans
      ((AgreeOn.after _ (keysIn_entryIf _ _ _) (by decide)).before (keysIn_entryIf _ _ _)
        (by decide))
  have hdeprecated : AgreeOn ["deprecated"] node
      (entryIf a.deprecated "deprecated" (.bool true)) :=
    (h.mono (by decide)).trans
      (AgreeOn.after _ ((keysIn_entryIf _ _ _).append (keysIn_entryIf _ _ _)) (by decide))
  obtain ⟨found, hfound, hvalue⟩ := textField?_eq_ok loc hdescription
  unfold readAdvisory
  rw [hfound, Outcome.ok_bind, flagField_eq_ok hexperimental, Outcome.ok_bind,
    flagField_eq_ok hdeprecated, Outcome.ok_bind, hvalue]
  rfl

theorem readItems_map {α β : Type} {read : Value → Location → Read α} {f : β → Value}
    {g : β → α} {items : List β} (h : ∀ x ∈ items, ∀ loc, read (f x) loc = .ok (g x))
    (loc : Location) (i : Nat) : readItems read loc (items.map f) i = .ok (items.map g) := by
  induction items generalizing i with
  | nil => rfl
  | cons x items ih =>
      obtain ⟨hx, hitems⟩ := List.forall_mem_cons.1 h
      rw [List.map_cons, readItems, hx, Outcome.ok_bind, ih hitems]
      rfl

theorem readTexts_map (complaint : Complaint) (loc : Location) (texts : List String) :
    readTexts complaint loc (texts.map Value.text) = .ok texts := by
  unfold readTexts
  conv_rhs => rw [← List.map_id texts]
  exact readItems_map (fun s _ _ => rfl) loc 0

end WireBindings.Schema
