import WireBindings.Proofs.Output.Preparation

/-!
# Writes that stay below

Writing files whose paths are confined changes no file outside the output directory, neither by
staging nor by moving nor by what is removed, and also when it is refused.
-/

namespace WireBindings

namespace FileTree

/-- Files that are not below a place are as they were. -/
def SameOutside (p : Place) (t t' : FileTree) : Prop :=
  ∀ q, ¬ Below p q → t'.file? q = t.file? q

variable {p q : Place} {t t' t'' : FileTree}

namespace SameOutside

theorem refl (p : Place) (t : FileTree) : SameOutside p t t := fun _ _ => rfl

theorem trans (h : SameOutside p t t') (h' : SameOutside p t' t'') : SameOutside p t t'' :=
  fun q hq => (h' q hq).trans (h q hq)

theorem set (h : Below p q) (t : FileTree) (e : Entry) : SameOutside p t (t.set q e) := by
  intro r hr
  have hne : r ≠ q := fun heq => hr (heq ▸ h)
  exact file?_congr (find?_set_of_ne hne t e)

theorem erase (h : Below p q) (t : FileTree) : SameOutside p t (t.erase q) := by
  intro r hr
  have hne : r ≠ q := fun heq => hr (heq ▸ h)
  exact file?_congr (find?_erase_of_ne hne t)

end SameOutside

end FileTree

namespace FileM

open FileTree

def Spares {α : Type} (p : Place) (act : FileM α) : Prop := ∀ t, SameOutside p t (act t).2

namespace Spares

variable {α β : Type} {p : Place} {path source destination : String}

theorem pure (p : Place) (a : α) : Spares p (pure a : FileM α) := fun t => SameOutside.refl p t

theorem throw (p : Place) (e : FileError) : Spares p (throw e : FileM α) :=
  fun t => SameOutside.refl p t

theorem bind {x : FileM α} {f : α → FileM β} (hx : Spares p x) (hf : ∀ a, Spares p (f a)) :
    Spares p (x >>= f) := by
  intro t
  have hfirst := hx t
  rw [Outcome.bind_run]
  rcases hrun : x t with ⟨e | a, u⟩ <;> rw [hrun] at hfirst
  · exact hfirst
  · exact hfirst.trans (hf a u)

theorem attempt {act : FileM α} (h : Spares p act) : Spares p (FileM.attempt act) := h

theorem change {destination : Option String} {act : FileTree → Except FileFault FileTree}
    (h : ∀ t t', act t = .ok t' → SameOutside p t t') :
    Spares p (FileM.change path destination act) := by
  intro t
  unfold FileM.change
  split
  · next t' hact => exact h t t' hact
  · exact SameOutside.refl p t

theorem write (h : Below p (place path)) (content : ByteArray) :
    Spares p (FileM.write path content) := by
  apply change
  intro t t' hact
  obtain ⟨q, hresolve, -, -, rfl⟩ := FileTree.write_eq_ok.1 hact
  rw [eq_place_of_resolve hresolve]
  exact SameOutside.set h t _

theorem move (hsource : Below p (place source)) (hdestination : Below p (place destination)) :
    Spares p (FileM.move source destination) := by
  apply change
  intro t t' hact
  obtain ⟨q, r, content, hq, hr, -, -, -, -, rfl⟩ := move_eq_ok.1 hact
  rw [eq_place_of_resolve hq, eq_place_of_resolve hr]
  exact (SameOutside.erase hsource t).trans (SameOutside.set hdestination _ _)

theorem makeDirectories (p : Place) (path : List Char) : Spares p (FileM.makeDirectories path) :=
  fun t q _ => (gains_makeDirectories path t).sameFiles q

theorem makeDirectory (p : Place) (path : String) : Spares p (FileM.makeDirectory path) := by
  apply change
  intro t t' hact
  obtain ⟨q, -, hq, rfl⟩ := makeDirectory_eq_ok.1 hact
  have hgains : GainsDirectories t (t.set q .directory) := Gains.set hq trivial
  exact fun r _ => hgains.sameFiles r

theorem removeTree (h : Below p (place path)) : Spares p (FileM.removeTree path) := by
  intro t q hq
  rcases file?_removeTree t path q with heq | ⟨hbelow, -⟩
  · exact heq
  · exact absurd (h.trans hbelow) hq

end Spares

end FileM

namespace Output

open FileTree FileM
open Target (File)

variable {p : Place} {staging out : String} {files : List File}

theorem spares_stageAll (h : ∀ f ∈ files, Below p (place (Path.join staging f.path))) :
    Spares p (stageAll staging files) := by
  induction files with
  | nil => exact Spares.pure p ()
  | cons f files ih =>
      obtain ⟨hf, hfiles⟩ := List.forall_mem_cons.1 h
      rw [stageAll]
      exact (Spares.makeDirectories p _).bind fun _ =>
        (Spares.write hf _).bind fun _ => ih hfiles

theorem spares_moveAll (hstaged : ∀ f ∈ files, Below p (place (Path.join staging f.path)))
    (hmoved : ∀ f ∈ files, Below p (place (Path.join out f.path))) :
    Spares p (moveAll staging out files) := by
  induction files with
  | nil => exact Spares.pure p []
  | cons f files ih =>
      obtain ⟨hsource, hstaged⟩ := List.forall_mem_cons.1 hstaged
      obtain ⟨hdestination, hmoved⟩ := List.forall_mem_cons.1 hmoved
      rw [moveAll]
      exact (Spares.makeDirectories p _).bind fun _ =>
        (Spares.move hsource hdestination).bind fun _ =>
          (ih hstaged hmoved).bind fun _ => Spares.pure p _

theorem spares_writeVia {isNew : Bool} (hout : Below p (place out))
    (hstaging : Below p (place staging))
    (hstaged : ∀ f ∈ files, Below p (place (Path.join staging f.path)))
    (hmoved : ∀ f ∈ files, Below p (place (Path.join out f.path))) :
    Spares p (writeVia staging out isNew files) := by
  unfold writeVia
  apply (Spares.makeDirectory p staging).bind
  intro _
  apply (Spares.attempt (spares_stageAll hstaged)).bind
  rintro (e | ⟨⟩)
  · dsimp only
    split
    · apply (Spares.removeTree hstaging).bind
      intro _
      split
      · exact (Spares.removeTree hout).bind fun _ => Spares.throw p e
      · exact Spares.throw p e
    · exact Spares.throw p e
  · apply (Spares.attempt (spares_moveAll hstaged hmoved)).bind
    intro moved
    apply (Spares.removeTree hstaging).bind
    rintro ⟨⟩
    cases moved with
    | error e => exact Spares.throw p e
    | ok written => exact Spares.pure p written

theorem below_stagingPath (out : String) (n : Nat) :
    Below (place out) (place (stagingPath out n)) := by
  rw [place_stagingPath]
  exact Below.names _ (List.forall_mem_singleton.2 (isName_stagingName n))

/-- A write of confined files changes no file outside the output directory. -/
theorem spares_writeAll (h : ∀ f ∈ files, Confined f.path) :
    Spares (place out) (writeAll out files) := by
  intro t
  have hmade := Spares.makeDirectories (place out) out.toList t
  rw [writeAll_run]
  rcases hrun : FileM.makeDirectories out.toList t with ⟨e | ⟨⟩, b⟩ <;> rw [hrun] at hmade
  · exact hmade
  · dsimp only
    obtain ⟨n, hname⟩ := exists_freshStaging_eq out b
    rw [hname]
    have hstaging := below_stagingPath out n
    apply hmade.trans
    apply spares_writeVia (Below.refl _) hstaging
    · exact fun f hf => hstaging.trans (h f hf (stagingPath out n)).1
    · exact fun f hf => (h f hf out).1

end Output

end WireBindings
