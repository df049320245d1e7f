import Mathlib.Data.List.Forall2
import WireBindings.Target.Lines

/-!
# What generated text carries

The parts of a unit that matter to its readers stand in its text one after another, with other text
around them. A text made of several texts carries what these carry, in their order.
-/

namespace WireBindings.Target

theorem render_singleton (line : String) : render [line] = line ++ "\n" := by
  rw [render, List.map_singleton, String.join_cons, String.join_nil, String.append_empty]

/-- The parts stand in the text in their order, and none overlaps the next. -/
def Carries (text : String) : List String → Prop
  | [] => True
  | part :: parts => ∃ before after, text = before ++ part ++ after ∧ Carries after parts

namespace Carries

variable {s t : String} {parts parts' : List String}

theorem nil : Carries s [] := trivial

theorem self : Carries s [s] := by
  refine ⟨"", "", ?_, nil⟩
  rw [String.empty_append, String.append_empty]

theorem prepend (before : String) (h : Carries s parts) : Carries (before ++ s) parts := by
  cases parts with
  | nil => exact nil
  | cons part parts =>
      obtain ⟨first, after, rfl, hafter⟩ := h
      refine ⟨before ++ first, after, ?_, hafter⟩
      simp only [String.append_assoc]

theorem append (h : Carries s parts) (h' : Carries t parts') :
    Carries (s ++ t) (parts ++ parts') := by
  induction parts generalizing s with
  | nil => exact h'.prepend s
  | cons part parts ih =>
      obtain ⟨before, after, rfl, hafter⟩ := h
      refine ⟨before, after ++ t, ?_, ih hafter⟩
      simp only [String.append_assoc]

theorem followed (after : String) (h : Carries s parts) : Carries (s ++ after) parts := by
  have happend := h.append (nil (s := after))
  rwa [List.append_nil] at happend

theorem intercalate (separator : String) {texts : List String} {parts : List (List String)}
    (h : List.Forall₂ Carries texts parts) :
    Carries (separator.intercalate texts) parts.flatten := by
  induction h with
  | nil => exact nil
  | cons hs hrest ih =>
      rw [List.flatten_cons]
      cases hrest with
      | nil =>
          rw [String.intercalate_singleton, List.flatten_nil, List.append_nil]
          exact hs
      | cons _ _ =>
          rw [String.intercalate_cons_cons]
          exact (hs.followed separator).append ih

theorem intercalate_last (separator : String) (texts : List String) (last : String) :
    Carries (separator.intercalate (texts ++ [last])) [last] := by
  by_cases h : texts = []
  · rw [h, List.nil_append, String.intercalate_singleton]
    exact self
  · rw [String.intercalate_append_of_ne_nil h (List.cons_ne_nil _ _), String.intercalate_singleton]
    exact self.prepend _

/-! ## Rendered lines -/

theorem render_append {lines lines' : List String} (h : Carries (Target.render lines) parts)
    (h' : Carries (Target.render lines') parts') :
    Carries (Target.render (lines ++ lines')) (parts ++ parts') := by
  rw [Target.render, List.map_append, String.join_append]
  exact h.append h'

theorem render_between (above below : List String) {lines : List String}
    (h : Carries (Target.render lines) parts) :
    Carries (Target.render (above ++ lines ++ below)) parts := by
  have habove : Carries (Target.render above) [] := nil
  have hbelow : Carries (Target.render below) [] := nil
  have hall := (habove.render_append h).render_append hbelow
  rwa [List.nil_append, List.append_nil] at hall

theorem render_line (above below : List String) {line : String} (h : Carries line parts) :
    Carries (Target.render (above ++ line :: below)) parts := by
  have hline : Carries (Target.render [line]) parts := by
    rw [render_singleton]
    exact h.followed _
  have hall := hline.render_between above below
  rwa [List.append_assoc, List.singleton_append] at hall

theorem render_flatMap {α β : Type} {f : α → List String} {g : β → List String} {l : List α}
    {l' : List β} (h : List.Forall₂ (fun a b => Carries (Target.render (g b)) (f a)) l l') :
    Carries (Target.render (l'.flatMap g)) (l.flatMap f) := by
  induction h with
  | nil => exact nil
  | cons hab _ ih =>
      rw [List.flatMap_cons, List.flatMap_cons]
      exact hab.render_append ih

end Carries

end WireBindings.Target
