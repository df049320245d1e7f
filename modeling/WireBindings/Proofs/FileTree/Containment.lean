import WireBindings.Proofs.FileTree.Descent

/-!
# Paths that stay below

A path is put strictly below every directory exactly if, read part by part, it never leads above
where it starts and ends in a name. What changes below a directory leaves the files outside alone.
-/

namespace WireBindings

namespace FileTree

def StrictlyBelow (p q : Place) : Prop := Below p q ∧ q ≠ p

theorem StrictlyBelow.isFixed_eq_false {p q : Place} (h : StrictlyBelow p q) :
    isFixed q = false := by
  obtain ⟨⟨rest, rfl, hrest⟩, hne⟩ := h
  cases rest using List.reverseRecOn with
  | nil => exact absurd (List.append_nil p) hne
  | append_singleton xs x =>
      rw [← List.append_assoc]
      exact isFixed_of_below (hrest x (List.mem_append_right _ List.mem_cons_self))

instance (p q : Place) : Decidable (Below p q) := decidable_of_iff _ isBelow_eq_true

instance (p q : Place) : Decidable (StrictlyBelow p q) := inferInstanceAs (Decidable (_ ∧ _))

/-- A path that stays strictly below whatever directory it is joined to. -/
def Confined (path : String) : Prop :=
  ∀ out, StrictlyBelow (place out) (place (Path.join out path))

/-- Whether parts never lead above a place that so many directories lie above. -/
def staysBelow : Nat → List String → Bool
  | _, [] => true
  | depth, part :: ps =>
    if part = "." then staysBelow depth ps
    else if part = ".." then 0 < depth && staysBelow (depth - 1) ps
    else staysBelow (depth + 1) ps

variable {xs ps : List String} {part : String}

theorem staysBelow_names (h : ∀ x ∈ xs, IsName x) (depth : Nat) (ps : List String) :
    staysBelow depth (xs ++ ps) = staysBelow (depth + xs.length) ps := by
  induction xs generalizing depth with
  | nil => rfl
  | cons x xs ih =>
      obtain ⟨hx, hxs⟩ := List.forall_mem_cons.1 h
      rw [List.cons_append, staysBelow, if_neg hx.1, if_neg hx.2.1, ih hxs, List.length_cons,
        Nat.add_right_comm, Nat.add_assoc]

theorem staysBelow_of_not_mem (h : ".." ∉ ps) (depth : Nat) : staysBelow depth ps = true := by
  induction ps generalizing depth with
  | nil => rfl
  | cons part ps ih =>
      rw [List.mem_cons, not_or] at h
      rw [staysBelow, if_neg (Ne.symm h.1), ih h.2, ih h.2, ite_self]

/-! ## Where parts lead from a place -/

theorem down_name (h : IsName part) (p : Place) : down p part = p ++ [part] := by
  rw [down, if_neg h.1, if_neg h.2.1]

theorem foldl_down_names (h : ∀ x ∈ xs, IsName x) (p : Place) : xs.foldl down p = p ++ xs := by
  induction xs generalizing p with
  | nil => exact (List.append_nil p).symm
  | cons x xs ih =>
      obtain ⟨hx, hxs⟩ := List.forall_mem_cons.1 h
      rw [List.foldl_cons, down_name hx, ih hxs, List.append_assoc, List.singleton_append]

/-- One part up from names is without the last of them. -/
theorem down_up {x : String} (hx : IsName x) (p : Place) (xs : List String) :
    down (p ++ (xs ++ [x])) ".." = p ++ xs := by
  have hroot : p ++ (xs ++ [x]) ≠ ["/"] := by
    rw [← List.append_assoc]
    intro heq
    have hlast := congrArg List.getLast? heq
    rw [List.getLast?_concat] at hlast
    exact hx.2.2 (Option.some.inj hlast)
  have hdots : (p ++ (xs ++ [x])).all (· = "..") = false := by simp [hx.2.1]
  rw [down, if_neg (by decide), if_pos rfl, if_neg hroot, hdots, if_neg Bool.false_ne_true,
    ← List.append_assoc, List.dropLast_concat]

/-- A part leads from names to names, unless it leads up where there are none. -/
theorem down_names_cases (hxs : ∀ x ∈ xs, IsName x) (hpart : part ≠ "/") :
    (∃ ys, (∀ y ∈ ys, IsName y) ∧ (∀ p, down (p ++ xs) part = p ++ ys) ∧
      ∀ ps, staysBelow xs.length (part :: ps) = staysBelow ys.length ps) ∨
    xs = [] ∧ part = ".." := by
  by_cases hdot : part = "."
  · refine .inl ⟨xs, hxs, fun p => ?_, fun ps => ?_⟩
    · rw [down, if_pos hdot]
    · rw [staysBelow, if_pos hdot]
  · by_cases hdots : part = ".."
    · cases xs using List.reverseRecOn with
      | nil => exact .inr ⟨rfl, hdots⟩
      | append_singleton xs x =>
          rw [List.forall_mem_append, List.forall_mem_singleton] at hxs
          refine .inl ⟨xs, hxs.1, fun p => ?_, fun ps => ?_⟩
          · rw [hdots, down_up hxs.2]
          · rw [staysBelow, if_neg hdot, if_pos hdots, List.length_append]
            simp
    · have hname : IsName part := ⟨hdot, hdots, hpart⟩
      refine .inl ⟨xs ++ [part], ?_, fun p => ?_, fun ps => ?_⟩
      · exact List.forall_mem_append.2 ⟨hxs, List.forall_mem_singleton.2 hname⟩
      · rw [down_name hname, List.append_assoc]
      · rw [staysBelow, if_neg hdot, if_neg hdots, List.length_append, List.length_singleton]

/-- Parts that never lead above where they start lead to some names from there. -/
theorem foldl_down_of_staysBelow (hxs : ∀ x ∈ xs, IsName x) (hps : ∀ part ∈ ps, part ≠ "/")
    (h : staysBelow xs.length ps = true) :
    ∃ ys, (∀ y ∈ ys, IsName y) ∧ ∀ p, ps.foldl down (p ++ xs) = p ++ ys := by
  -- the names that the parts have led to so far carry the induction
  induction ps generalizing xs with
  | nil => exact ⟨xs, hxs, fun _ => rfl⟩
  | cons part ps ih =>
      obtain ⟨hslash, hps⟩ := List.forall_mem_cons.1 hps
      rcases down_names_cases hxs hslash with ⟨zs, hzs, hdown, hstays⟩ | ⟨rfl, rfl⟩
      · rw [hstays] at h
        obtain ⟨ys, hys, heq⟩ := ih hzs hps h
        refine ⟨ys, hys, fun p => ?_⟩
        rw [List.foldl_cons, hdown, heq]
      · cases h

theorem head?_down {p : Place} (h : p.head? = some "..") : (down p part).head? = some ".." := by
  obtain ⟨rest, rfl⟩ := List.head?_eq_some_iff.1 h
  unfold down
  split
  · rfl
  · split
    · split
      · rfl
      · split
        · rfl
        · rename_i hall
          cases rest with
          | nil => exact absurd rfl hall
          | cons x rest => rfl
    · rfl

theorem head?_foldl_down {p : Place} (h : p.head? = some "..") :
    (ps.foldl down p).head? = some ".." := by
  induction ps generalizing p with
  | nil => exact h
  | cons part ps ih => exact ih (head?_down h)

theorem head?_of_not_staysBelow (hxs : ∀ x ∈ xs, IsName x) (hps : ∀ part ∈ ps, part ≠ "/")
    (h : staysBelow xs.length ps = false) : (ps.foldl down xs).head? = some ".." := by
  induction ps generalizing xs with
  | nil => cases h
  | cons part ps ih =>
      obtain ⟨hslash, hps⟩ := List.forall_mem_cons.1 hps
      rcases down_names_cases hxs hslash with ⟨zs, hzs, hdown, hstays⟩ | ⟨rfl, rfl⟩
      · rw [hstays] at h
        have hzero := hdown []
        rw [List.nil_append, List.nil_append] at hzero
        rw [List.foldl_cons, hzero]
        exact ih hzs hps h
      · rw [List.foldl_cons]
        exact head?_foldl_down rfl

/-! ## Confined paths -/

theorem place_join {path : String} (h : IsRelative path) (out : String) :
    place (Path.join out path) = (parts path).foldl down (place out) := by
  rw [place, place, parts_join out h, start_join out h, List.foldl_append]

theorem place_join_plain {path : String} (h : IsPlain path) (out : String) :
    place (Path.join out path) = place out ++ parts path := by
  rw [place_join h.isRelative, foldl_down_names fun _ hx => h.isName hx]

/-- A path that ends in a name is confined exactly if its other parts never lead above the start. -/
theorem confined_iff {path last : String} (hrelative : IsRelative path)
    (hparts : parts path = ps ++ [last]) (hlast : IsName last) :
    Confined path ↔ staysBelow 0 ps = true := by
  have hps : ∀ part ∈ ps, part ≠ "/" := fun part hpart =>
    ne_slash_of_mem_parts (hparts ▸ List.mem_append_left _ hpart)
  have hnone : ∀ x ∈ ([] : List String), IsName x := fun x hx => absurd hx List.not_mem_nil
  constructor
  · intro h
    by_contra hup
    have hhead := head?_of_not_staysBelow hnone hps (Bool.eq_false_iff.2 hup)
    obtain ⟨⟨rest, heq, hrest⟩, -⟩ := h ""
    have hempty : place "" = [] := rfl
    rw [place_join hrelative, hparts, List.foldl_concat, down_name hlast, hempty,
      List.nil_append] at heq
    have hmem : ".." ∈ rest := by
      rw [← heq]
      exact List.mem_append_left _ (List.mem_of_head? hhead)
    exact (hrest _ hmem).1 rfl
  · intro h out
    obtain ⟨ys, hys, heq⟩ := foldl_down_of_staysBelow hnone hps h
    have hplace : place (Path.join out path) = place out ++ (ys ++ [last]) := by
      have hout := heq (place out)
      rw [List.append_nil] at hout
      rw [place_join hrelative, hparts, List.foldl_concat, hout, down_name hlast,
        List.append_assoc]
    rw [hplace]
    refine ⟨Below.names _ (List.forall_mem_append.2 ⟨hys, List.forall_mem_singleton.2 hlast⟩), ?_⟩
    simp

/-! ## A name behind a directory -/

theorem isName_of_mem_parts {path : String} (hdot : '.' ∉ path.toList)
    (hpart : part ∈ parts path) : IsName part := by
  obtain ⟨segment, hsegment, hofList⟩ := List.mem_map.1 hpart
  have hnot : '.' ∉ part.toList := by
    rw [← hofList, String.toList_ofList]
    exact fun h => hdot (Text.mem_of_mem_splitOnP (List.mem_of_mem_filter hsegment) h).1
  refine ⟨?_, ?_, ne_slash_of_mem_parts hpart⟩
  · rintro rfl
    exact hnot (by decide)
  · rintro rfl
    exact hnot (by decide)

theorem parts_append_name (root name : String) {extension : String}
    (hslash : '/' ∉ extension.toList) (hne : extension ≠ "") :
    parts (root ++ "/" ++ name ++ extension) =
      parts root ++ parts (Path.parent name) ++ [Path.baseName name ++ extension] := by
  obtain ⟨head, hname, hhead, -, hparent, -⟩ := exists_eq_append_lastPart name.toList
  have hlast : '/' ∉ Path.lastPart name.toList ++ extension.toList := by
    rw [List.mem_append, not_or]
    exact ⟨notMem_lastPart _, hslash⟩
  have hlast' : Path.lastPart name.toList ++ extension.toList ≠ [] :=
    List.append_ne_nil_of_right_ne_nil _ (mt String.toList_eq_nil_iff.1 hne)
  have hsplit : ∀ rest, segments (head ++ rest) = segments head ++ segments rest := by
    intro rest
    rcases hhead with rfl | ⟨l, rfl⟩
    · rw [segments_nil, List.nil_append, List.nil_append]
    · rw [List.append_assoc, List.singleton_append, segments_append_slash, segments_concat_slash]
  have htext : (root ++ "/" ++ name ++ extension).toList =
      root.toList ++ '/' :: (head ++ (Path.lastPart name.toList ++ extension.toList)) := by
    rw [String.toList_append, String.toList_append, String.toList_append]
    conv_lhs => rw [hname]
    simp
  rw [parts_eq, htext, segments_append_slash, hsplit, segments_of_notMem hlast hlast', Path.parent,
    parts_ofList, hparent, String.ofList_append, String.ofList_toList, List.append_assoc]
  rfl

theorem parts_parent_of_notMem {name : String} (h : '/' ∉ name.toList) :
    parts (Path.parent name) = [] := by
  obtain ⟨head, hname, hhead, -, hparent, -⟩ := exists_eq_append_lastPart name.toList
  rw [Path.parent, parts_ofList, hparent]
  rcases hhead with rfl | ⟨l, rfl⟩
  · rfl
  · rw [hname] at h
    simp at h

/-! ## Removed directories -/

section

variable {t : FileTree} {path : String} {p : Place}

/-- What removing a directory leaves of it: nothing, or the directory itself if the path names it by
an entry of its own. -/
theorem find?_removeTree (hresolve : t.resolve path = .ok p) (hp : t.find? p = some .directory)
    (hfixed : endsInDots path = false → isFixed p = false) :
    ((t.removeTree path).find? p = if endsInDots path then some .directory else none) ∧
      (∀ q, StrictlyBelow p q → (t.removeTree path).find? q = none) ∧
      ∀ q, ¬ Below p q → (t.removeTree path).find? q = t.find? q := by
  have hremoved : t.removeTree path =
      if endsInDots path then (t.eraseBelow p).set p .directory else t.eraseBelow p := by
    unfold removeTree
    rw [hresolve]
    exact if_pos hp
  have hbelow (q : Place) (hq : StrictlyBelow p q) : (t.eraseBelow p).find? q = none :=
    find?_eraseBelow_of_isBelow (isBelow_eq_true.2 hq.1) hq.isFixed_eq_false t
  have houtside (q : Place) (hq : ¬ Below p q) : (t.eraseBelow p).find? q = t.find? q :=
    find?_eraseBelow_of_not_isBelow (isBelow_eq_false.2 hq) t
  rw [hremoved]
  cases hdots : endsInDots path with
  | false =>
      rw [if_neg Bool.false_ne_true, if_neg Bool.false_ne_true]
      exact ⟨find?_eraseBelow_of_isBelow (isBelow_eq_true.2 (Below.refl p)) (hfixed hdots) t,
        hbelow, houtside⟩
  | true =>
      rw [if_pos rfl, if_pos rfl]
      refine ⟨?_, fun q hq => ?_, fun q hq => ?_⟩
      · cases h : isFixed p with
        | true => exact find?_of_isFixed h _
        | false => exact find?_set_self h _ _
      · rw [find?_set_of_ne hq.2, hbelow q hq]
      · have hne : q ≠ p := by
          rintro rfl
          exact hq (Below.refl _)
        rw [find?_set_of_ne hne, houtside q hq]

/-- A path that ends in a name never leads to a place that is always there. -/
theorem isFixed_place_of_name (hparts : parts path ≠ []) (hdots : endsInDots path = false) :
    isFixed (place path) = false := by
  cases hlast : parts path using List.reverseRecOn with
  | nil => exact absurd hlast hparts
  | append_singleton ps part =>
      have hmem : part ∈ parts path := hlast ▸ List.mem_append_right _ List.mem_cons_self
      unfold endsInDots at hdots
      rw [hlast, List.getLast?_concat] at hdots
      have hname : IsName part := by
        simp at hdots
        exact ⟨hdots.1, hdots.2, ne_slash_of_mem_parts hmem⟩
      rw [place, hlast, List.foldl_concat, down_name hname]
      exact isFixed_of_below hname.2

end

end FileTree

end WireBindings
