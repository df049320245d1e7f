import WireBindings.Proofs.FileTree.Places
import WireBindings.Proofs.Text
import Mathlib.Data.List.Infix
import Mathlib.Data.List.TakeWhile

/-!
# Parts of path texts

The parts of a joined path are those of both paths, and a path without its last part has the parts
before it.
-/

namespace WireBindings.FileTree

def segments (path : List Char) : List String :=
  ((path.splitOnP (· == '/')).filter (!·.isEmpty)).map String.ofList

def start (path : String) : Place := if path.toList.head? = some '/' then ["/"] else []

theorem find?_start (path : String) (t : FileTree) : t.find? (start path) = some .directory := by
  refine find?_of_isFixed ?_ t
  unfold start
  split <;> decide

theorem parts_eq (path : String) : parts path = segments path.toList := rfl

theorem segments_nil : segments [] = [] := rfl

theorem segments_append_slash (l r : List Char) :
    segments (l ++ '/' :: r) = segments l ++ segments r := by
  unfold segments
  rw [List.splitOnP_append_cons l r (by decide), List.filter_append, List.map_append]

theorem segments_concat_slash (l : List Char) : segments (l ++ ['/']) = segments l := by
  rw [segments_append_slash, segments_nil, List.append_nil]

theorem segments_of_notMem {l : List Char} (h : '/' ∉ l) (hne : l ≠ []) :
    segments l = [String.ofList l] := by
  have hsplit : l.splitOnP (· == '/') = [l] := by
    refine List.splitOnP_eq_singleton ?_
    rintro c hc
    rw [beq_eq_false_iff_ne]
    rintro rfl
    exact h hc
  have hempty : l.isEmpty = false := by simpa using hne
  unfold segments
  rw [hsplit]
  simp [hempty]

theorem segments_dropSlashes (l : List Char) :
    segments (l.reverse.dropWhile (· = '/')).reverse = segments l := by
  induction l using List.reverseRecOn with
  | nil => rfl
  | append_singleton l c ih =>
      rw [List.reverse_concat, List.dropWhile_cons]
      by_cases hc : c = '/'
      · rw [if_pos (by simpa using hc), ih, hc, segments_concat_slash]
      · rw [if_neg (by simpa using hc), List.reverse_cons, List.reverse_reverse]

/-! ## Joined paths -/

def IsRelative (path : String) : Prop := path.toList.head? ≠ some '/'

theorem join_empty {path : String} (h : IsRelative path) : Path.join "" path = path := by
  unfold Path.join
  rw [if_neg h, if_pos (by decide), String.empty_append]

theorem exists_join_eq (base : String) :
    ∃ slash, ∀ path, IsRelative path → Path.join base path = base ++ slash ++ path := by
  by_cases hbase : base.isEmpty || base.toList.getLast? = some '/'
  · refine ⟨"", fun path h => ?_⟩
    rw [Path.join, if_neg h, if_pos hbase, String.append_empty]
  · refine ⟨"/", fun path h => ?_⟩
    rw [Path.join, if_neg h, if_neg hbase]

theorem parts_join (base : String) {path : String} (h : IsRelative path) :
    parts (Path.join base path) = parts base ++ parts path := by
  by_cases hbase : base = ""
  · rw [hbase, join_empty h]
    rfl
  · unfold Path.join
    rw [if_neg h]
    split
    · rename_i hslash
      rw [Bool.or_eq_true, String.isEmpty_iff, decide_eq_true_eq] at hslash
      obtain ⟨l, hl⟩ := List.getLast?_eq_some_iff.1 (hslash.resolve_left hbase)
      rw [parts_eq, parts_eq, parts_eq, String.toList_append, hl, List.append_assoc,
        List.singleton_append, segments_append_slash, segments_concat_slash]
    · rw [parts_eq, parts_eq, parts_eq, String.toList_append, String.toList_append,
        List.append_assoc]
      exact segments_append_slash _ _

theorem mem_parts_join {base path part : String} (h : part ∈ parts (Path.join base path)) :
    part ∈ parts base ∨ part ∈ parts path := by
  by_cases hpath : IsRelative path
  · rwa [parts_join base hpath, List.mem_append] at h
  · rw [Path.join, if_pos (not_not.1 hpath)] at h
    exact .inr h

theorem start_join (base : String) {path : String} (h : IsRelative path) :
    start (Path.join base path) = start base := by
  by_cases hbase : base = ""
  · rw [hbase, join_empty h, start, if_neg h]
    rfl
  · obtain ⟨c, l, hl⟩ := List.exists_cons_of_ne_nil (mt String.toList_eq_nil_iff.1 hbase)
    unfold Path.join start
    rw [if_neg h]
    split
    · rw [String.toList_append, hl]
      rfl
    · rw [String.toList_append, String.toList_append, hl]
      rfl

/-! ## A path without its last part -/

theorem notMem_lastPart (path : List Char) : '/' ∉ Path.lastPart path := by
  have hall := List.all_takeWhile (p := fun c => decide (c ≠ '/')) (l := path.reverse)
  rw [List.all_eq_true] at hall
  unfold Path.lastPart
  rw [List.mem_reverse]
  intro hmem
  exact absurd rfl (of_decide_eq_true (hall _ hmem))

theorem head?_eq_of_isPrefix {α : Type} {l path : List α} (h : l <+: path) (hne : l ≠ []) :
    l.head? = path.head? := by
  obtain ⟨r, rfl⟩ := h
  rw [List.head?_append_of_ne_nil l hne]

/-- What stands before the last part, without the slashes at its end unless it is all slashes. -/
theorem exists_eq_append_lastPart (path : List Char) :
    ∃ head, path = head ++ Path.lastPart path ∧ (head = [] ∨ ∃ l, head = l ++ ['/']) ∧
      Path.parentPart path <+: head ∧ segments (Path.parentPart path) = segments head ∧
      (Path.parentPart path = [] → head = []) := by
  obtain ⟨head, hhead⟩ : ∃ head, head = (path.reverse.dropWhile (· ≠ '/')).reverse := ⟨_, rfl⟩
  have hpath : path = head ++ Path.lastPart path := by
    rw [hhead, Path.lastPart, ← List.reverse_append, List.takeWhile_append_dropWhile,
      List.reverse_reverse]
  have htake : path.take (path.length - (Path.lastPart path).length) = head := by
    have hlength : path.length - (Path.lastPart path).length = head.length := by
      conv_lhs => rw [hpath, List.length_append, ← hpath]
      omega
    conv_lhs => rw [hlength, hpath]
    exact List.take_left
  refine ⟨head, hpath, ?_, ?_⟩
  · cases hdrop : path.reverse.dropWhile (· ≠ '/') with
    | nil => exact .inl (by rw [hhead, hdrop, List.reverse_nil])
    | cons c l =>
        have hc := List.head_dropWhile_not (fun c => decide (c ≠ '/')) (l := path.reverse)
          (by rw [hdrop]; exact List.cons_ne_nil c l)
        simp only [hdrop, List.head_cons, decide_eq_false_iff_not, not_not] at hc
        exact .inr ⟨l.reverse, by rw [hhead, hdrop, hc, List.reverse_cons]⟩
  · unfold Path.parentPart
    simp only [htake]
    split
    · exact ⟨List.prefix_rfl, rfl, id⟩
    · rename_i hall
      refine ⟨?_, segments_dropSlashes head, ?_⟩
      · have hsuffix := List.dropWhile_suffix (l := head.reverse) (fun c => decide (c = '/'))
        rwa [← List.reverse_prefix, List.reverse_reverse] at hsuffix
      · intro hnil
        rw [List.reverse_eq_nil_iff, List.dropWhile_eq_nil_iff] at hnil
        exact absurd (List.all_eq_true.2 fun c hc => hnil c (List.mem_reverse.2 hc)) hall

theorem parentPart_isPrefix (path : List Char) : Path.parentPart path <+: path := by
  obtain ⟨head, hpath, -, hpre, -, -⟩ := exists_eq_append_lastPart path
  exact hpre.trans ⟨_, hpath.symm⟩

theorem segments_eq_concat {path : List Char} (h : Path.lastPart path ≠ []) :
    segments path =
      segments (Path.parentPart path) ++ [String.ofList (Path.lastPart path)] := by
  obtain ⟨head, hpath, hslash, -, hsegments, -⟩ := exists_eq_append_lastPart path
  have hlast := segments_of_notMem (notMem_lastPart path) h
  conv_lhs => rw [hpath]
  rw [hsegments]
  rcases hslash with rfl | ⟨l, rfl⟩
  · rw [List.nil_append, hlast, segments_nil, List.nil_append]
  · rw [List.append_assoc, List.singleton_append, segments_append_slash, hlast,
      segments_concat_slash]

theorem segments_parentPart_isPrefix (path : List Char) :
    segments (Path.parentPart path) <+: segments path := by
  by_cases hlast : Path.lastPart path = []
  · obtain ⟨head, hpath, -, -, hsegments, -⟩ := exists_eq_append_lastPart path
    rw [hlast, List.append_nil] at hpath
    rw [hsegments, hpath]
  · rw [segments_eq_concat hlast]
    exact List.prefix_append _ _

theorem segments_trimmed (path : List Char) : segments (Path.trimmed path) = segments path := by
  unfold Path.trimmed
  split
  · rename_i hlast
    obtain ⟨head, hpath, -, -, hsegments, -⟩ := exists_eq_append_lastPart path
    rw [hlast, List.append_nil] at hpath
    rw [hsegments, ← hpath]
  · rfl

theorem trimmed_isPrefix (path : List Char) : Path.trimmed path <+: path := by
  unfold Path.trimmed
  split
  · exact parentPart_isPrefix path
  · exact List.prefix_rfl

theorem segments_of_all_slashes {l : List Char} (h : ∀ c ∈ l, c = '/') : segments l = [] := by
  induction l using List.reverseRecOn with
  | nil => rfl
  | append_singleton l c ih =>
      rw [h c (by simp), segments_concat_slash]
      exact ih fun d hd => h d (by simp [hd])

theorem lastPart_concat_ne_nil (l : List Char) {c : Char} (h : c ≠ '/') :
    Path.lastPart (l ++ [c]) ≠ [] := by
  unfold Path.lastPart
  rw [List.reverse_concat, List.takeWhile_cons, if_pos (by simpa using h), List.reverse_cons]
  exact List.append_ne_nil_of_right_ne_nil _ (List.cons_ne_nil c [])

theorem lastPart_dropSlashes {l : List Char}
    (h : Path.lastPart (l.reverse.dropWhile (· = '/')).reverse = []) :
    (l.reverse.dropWhile (· = '/')).reverse = [] := by
  cases hdrop : l.reverse.dropWhile (· = '/') with
  | nil => rfl
  | cons c rest =>
      have hc := List.head_dropWhile_not (fun c => decide (c = '/')) (l := l.reverse)
        (by rw [hdrop]; exact List.cons_ne_nil c rest)
      simp only [hdrop, List.head_cons, decide_eq_false_iff_not] at hc
      rw [hdrop, List.reverse_cons] at h
      exact absurd h (lastPart_concat_ne_nil _ hc)

theorem segments_eq_nil {path : List Char} (h : Path.lastPart (Path.trimmed path) = []) :
    segments path = [] := by
  rw [← segments_trimmed]
  unfold Path.trimmed at h ⊢
  split at h
  · rename_i hlast
    rw [if_pos hlast]
    unfold Path.parentPart at h ⊢
    simp only at h ⊢
    split at h
    · rename_i hall
      rw [if_pos hall]
      exact segments_of_all_slashes fun c hc => of_decide_eq_true (List.all_eq_true.1 hall c hc)
    · rename_i hall
      rw [if_neg hall, lastPart_dropSlashes h, segments_nil]
  · rename_i hlast
    exact absurd h hlast

def above (path : List Char) : List Char := Path.parentPart (Path.trimmed path)

/-- The name at the end of a path, whatever slashes follow it. -/
def lastName (path : List Char) : List Char := Path.lastPart (Path.trimmed path)

theorem above_isPrefix (path : List Char) : above path <+: path :=
  (parentPart_isPrefix _).trans (trimmed_isPrefix path)

theorem segments_above {path : List Char} (h : lastName path ≠ []) :
    segments path = segments (above path) ++ [String.ofList (lastName path)] := by
  rw [← segments_trimmed]
  exact segments_eq_concat h

theorem length_above_lt {path : List Char} (h : lastName path ≠ []) :
    (above path).length < path.length :=
  Nat.lt_of_lt_of_le (Path.length_parentPart_lt h) (Path.length_trimmed_le path)

theorem parts_ofList (path : List Char) : parts (String.ofList path) = segments path := by
  rw [parts_eq, String.toList_ofList]

theorem start_of_isPrefix {l path : List Char} (h : l <+: path) (hne : l ≠ []) :
    start (String.ofList l) = start (String.ofList path) := by
  unfold start
  rw [String.toList_ofList, String.toList_ofList, head?_eq_of_isPrefix h hne]

theorem start_eq_nil {l : List Char} (h : '/' ∉ l) : start (String.ofList l) = [] := by
  unfold start
  rw [String.toList_ofList, if_neg]
  exact fun hhead => h (List.mem_of_head? hhead)

theorem start_parentPart (path : List Char) :
    start (String.ofList (Path.parentPart path)) = start (String.ofList path) := by
  by_cases hne : Path.parentPart path = []
  · obtain ⟨head, hpath, -, -, -, hnil⟩ := exists_eq_append_lastPart path
    rw [hnil hne, List.nil_append] at hpath
    rw [hne, start_eq_nil List.not_mem_nil, start_eq_nil (hpath ▸ notMem_lastPart path)]
  · exact start_of_isPrefix (parentPart_isPrefix path) hne

/-! ## Plain paths -/

/-- A part that is the name of something: it is neither dots nor a root. -/
def IsName (part : String) : Prop := part ≠ "." ∧ part ≠ ".." ∧ part ≠ "/"

theorem step_name {part : String} (h : IsName part) {p q : Place} :
    step p part = .ok q ↔ part.utf8ByteSize ≤ maxNameBytes ∧ q = p ++ [part] := by
  unfold step
  rw [if_neg h.1, if_neg h.2.1]
  split
  · rename_i hsize
    simp only [reduceCtorEq, false_iff, not_and]
    exact fun hle => absurd hle (Nat.not_le.2 hsize)
  · rename_i hsize
    rw [Except.ok.injEq, eq_comm, and_iff_right (Nat.not_lt.1 hsize)]

/-- A relative path without empty parts and without dots for parts. -/
def IsPlain (path : String) : Prop :=
  ∀ segment ∈ path.toList.splitOnP (· == '/'),
    segment ≠ [] ∧ segment ≠ ['.'] ∧ segment ≠ ['.', '.']

instance (path : String) : Decidable (IsPlain path) := List.decidableBAll _ _

theorem ne_slash_of_mem_parts {path part : String} (h : part ∈ parts path) : part ≠ "/" := by
  obtain ⟨segment, hsegment, rfl⟩ := List.mem_map.1 h
  intro heq
  rw [String.ofList_injective (heq : String.ofList segment = String.ofList ['/'])] at hsegment
  have hslash := Text.mem_of_mem_splitOnP (List.mem_of_mem_filter hsegment) List.mem_cons_self
  exact absurd hslash.2 (by decide)

namespace IsPlain

variable {path path' : String}

theorem parts_eq (h : IsPlain path) :
    parts path = (path.toList.splitOnP (· == '/')).map String.ofList := by
  have hfilter : (path.toList.splitOnP (· == '/')).filter (!·.isEmpty) =
      path.toList.splitOnP (· == '/') := by
    rw [List.filter_eq_self]
    intro segment hsegment
    simpa using (h segment hsegment).1
  rw [FileTree.parts_eq, segments, hfilter]

theorem parts_ne_nil (h : IsPlain path) : parts path ≠ [] := by
  rw [h.parts_eq, Ne, List.map_eq_nil_iff]
  exact List.splitOnP_ne_nil _ _

theorem eq_of_parts_eq (h : IsPlain path) (h' : IsPlain path')
    (hparts : parts path = parts path') : path = path' := by
  have hinjective : Function.Injective String.ofList := fun _ _ => String.ofList_injective
  rw [h.parts_eq, h'.parts_eq] at hparts
  have hsplit := List.map_injective_iff.2 hinjective hparts
  have hjoin (text : String) :
      text.toList = ['/'].intercalate (text.toList.splitOnP (· == '/')) := by
    rw [← List.splitOn_eq_splitOnP, List.intercalate_splitOn]
  rw [← String.toList_inj, hjoin path, hjoin path', hsplit]

theorem isRelative (h : IsPlain path) : IsRelative path := by
  intro hhead
  obtain ⟨l, hl⟩ := List.head?_eq_some_iff.1 hhead
  have hmem : [] ∈ path.toList.splitOnP (· == '/') := by
    rw [hl, List.splitOnP_cons_eq_if_modifyHead, if_pos (by decide)]
    exact List.mem_cons_self
  exact (h [] hmem).1 rfl

theorem ne_empty (h : IsPlain path) : path ≠ "" := by
  rintro rfl
  exact (h [] List.mem_cons_self).1 rfl

theorem getLast?_ne (h : IsPlain path) : path.toList.getLast? ≠ some '/' := by
  intro hlast
  obtain ⟨l, hl⟩ := List.getLast?_eq_some_iff.1 hlast
  have hmem : [] ∈ path.toList.splitOnP (· == '/') := by
    rw [hl, List.splitOnP_append_cons l [] (by decide), List.splitOnP_nil]
    exact List.mem_append_right _ List.mem_cons_self
  exact (h [] hmem).1 rfl

theorem isName (h : IsPlain path) {part : String} (hpart : part ∈ parts path) :
    IsName part := by
  have hslash := ne_slash_of_mem_parts hpart
  rw [h.parts_eq] at hpart
  obtain ⟨segment, hsegment, rfl⟩ := List.mem_map.1 hpart
  obtain ⟨-, hdot, hdots⟩ := h segment hsegment
  have hlist {l : List Char} (heq : String.ofList segment = String.ofList l) : segment = l :=
    String.ofList_injective heq
  exact ⟨fun heq => hdot (hlist heq), fun heq => hdots (hlist heq), hslash⟩

end IsPlain

theorem namesDirectory_eq_false {path : String} (h : Path.baseName path ≠ "") :
    namesDirectory path = false := by
  unfold namesDirectory
  rw [decide_eq_false_iff_not]
  intro hlast
  obtain ⟨l, hl⟩ := List.getLast?_eq_some_iff.1 hlast
  refine h ?_
  rw [Path.baseName, hl]
  simp [Path.lastPart]

theorem namesDirectory_join {path : String} (h : IsPlain path) (base : String) :
    namesDirectory (Path.join base path) = false := by
  have hne : path.toList ≠ [] := mt String.toList_eq_nil_iff.1 h.ne_empty
  have hlast (l : List Char) : (l ++ path.toList).getLast? ≠ some '/' := by
    rw [List.getLast?_append_of_ne_nil l hne]
    exact h.getLast?_ne
  unfold namesDirectory Path.join
  rw [if_neg h.isRelative, decide_eq_false_iff_not]
  split
  · rw [String.toList_append]
    exact hlast _
  · rw [String.toList_append]
    exact hlast _

theorem segments_parentPart_join (base : String) {path : String} (h : IsPlain path) :
    segments (Path.parentPart (Path.join base path).toList) =
      parts base ++ (parts path).dropLast := by
  have hparts := parts_join base h.isRelative
  rw [parts_eq] at hparts
  have hlast : Path.lastPart (Path.join base path).toList ≠ [] := by
    have hnames := namesDirectory_join h base
    unfold namesDirectory at hnames
    rw [decide_eq_false_iff_not] at hnames
    cases hlist : (Path.join base path).toList using List.reverseRecOn with
    | nil =>
        rw [hlist, segments_nil] at hparts
        exact absurd (List.append_eq_nil_iff.1 hparts.symm).2 h.parts_ne_nil
    | append_singleton l c =>
        rw [hlist, List.getLast?_concat] at hnames
        exact lastPart_concat_ne_nil l fun hc => hnames (congrArg some hc)
  rw [segments_eq_concat hlast, ← List.dropLast_append_getLast h.parts_ne_nil,
    ← List.append_assoc] at hparts
  exact (List.append_inj' hparts (by simp)).1

theorem parentPart_join_ne_nil {base path : String} (hbase : base ≠ "") (h : IsRelative path) :
    Path.parentPart (Path.join base path).toList ≠ [] := by
  intro hnil
  obtain ⟨head, hpath, -, -, -, hhead⟩ := exists_eq_append_lastPart (Path.join base path).toList
  rw [hhead hnil, List.nil_append] at hpath
  have hslash := notMem_lastPart (Path.join base path).toList
  rw [← hpath] at hslash
  unfold Path.join at hslash
  rw [if_neg h] at hslash
  split at hslash
  · rename_i hends
    rw [Bool.or_eq_true, String.isEmpty_iff, decide_eq_true_eq] at hends
    have hmem := List.mem_of_getLast? (hends.resolve_left hbase)
    rw [String.toList_append] at hslash
    exact hslash (List.mem_append_left _ hmem)
  · simp [String.toList_append] at hslash

end WireBindings.FileTree
