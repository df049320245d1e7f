import WireBindings.Proofs.Binding.Places

/-!
# Paths made of distinct names

A path is made of the names on the way to a place, so names that are distinct among their siblings
give distinct paths.
-/

namespace WireBindings.Binding

open Schema (Shape Property TypeDeclaration)

structure DistinctSiblings (d : Schema.Domain) : Prop where
  commands : (d.commands.map Schema.Command.name).Nodup
  events : (d.events.map Schema.Event.name).Nodup
  members : ∀ {path properties}, MemberList d path properties →
    (properties.map Member.name).Nodup
  nested : ∀ {path properties}, Stands d path (.record properties) →
    (properties.map Member.name).Nodup

/-! ## Paths below distinct names -/

theorem eq_of_below {path q : ShapePath} {a b : String} (ha : path ++ [a] <+: q)
    (hb : path ++ [b] <+: q) : a = b := by
  have hbelow := List.prefix_of_prefix_length_le ha hb (by simp)
  have heq := hbelow.eq_of_length (by simp)
  simpa using heq

theorem disjoint_of_below {path : ShapePath} {a b : String} {l k : List ShapePath}
    (hne : a ≠ b) (ha : ∀ q ∈ l, path ++ [a] <+: q) (hb : ∀ q ∈ k, path ++ [b] <+: q) :
    List.Disjoint l k := by
  refine List.disjoint_left.2 ?_
  intro q hl hk
  exact hne (eq_of_below (ha q hl) (hb q hk))

theorem nodup_flatMap_of_below {α : Type} {l : List α} {key : α → String}
    {f : α → List ShapePath} {path : ShapePath} (hkeys : (l.map key).Nodup)
    (hnodup : ∀ a ∈ l, (f a).Nodup) (hbelow : ∀ a ∈ l, ∀ q ∈ f a, path ++ [key a] <+: q) :
    (l.flatMap f).Nodup := by
  refine List.nodup_flatMap.2 ⟨hnodup, (List.pairwise_map.1 hkeys).imp_of_mem ?_⟩
  intro a b ha hb hne
  exact disjoint_of_below hne (hbelow a ha) (hbelow b hb)

theorem prefix_of_mem_writtenTypes {description : String} {path : ShapePath} {shape : Shape}
    {w : Written} (hw : w ∈ writtenTypes description path shape) : path <+: w.path := by
  induction shape generalizing description path with
  | reference target => simp [writtenTypes] at hw
  | scalar kind => simp [writtenTypes] at hw
  | enumeration literals =>
      obtain rfl := List.mem_singleton.1 hw
      exact List.prefix_rfl
  | record properties ih =>
      rcases List.mem_cons.1 hw with rfl | hw
      · exact List.prefix_rfl
      · rw [writtenMembers_eq_flatMap] at hw
        obtain ⟨p, hp, hw⟩ := List.mem_flatMap.1 hw
        have hbelow := ih p hp hw
        rw [List.append_assoc] at hbelow
        exact (List.prefix_append _ _).trans hbelow
  | array item ih => exact (List.prefix_append _ _).trans (ih hw)

theorem prefix_of_mem_writtenMembers {path : ShapePath} {properties : List Property}
    {w : Written} (hw : w ∈ writtenMembers path properties) :
    ∃ p ∈ properties, path ++ [p.name] <+: w.path := by
  rw [writtenMembers_eq_flatMap] at hw
  obtain ⟨p, hp, hw⟩ := List.mem_flatMap.1 hw
  exact ⟨p, hp, prefix_of_mem_writtenTypes hw⟩

theorem nodup_writtenMembers_of_types {path : ShapePath} {properties : List Property}
    (hnames : (properties.map Member.name).Nodup)
    (htypes : ∀ p ∈ properties, ((writtenTypes p.advisory.description (path ++ [p.name])
      p.type).map Written.path).Nodup) :
    ((writtenMembers path properties).map Written.path).Nodup := by
  rw [writtenMembers_eq_flatMap, List.map_flatMap]
  apply nodup_flatMap_of_below hnames htypes
  intro p hp q hq
  obtain ⟨w, hw, rfl⟩ := List.mem_map.1 hq
  exact prefix_of_mem_writtenTypes hw

theorem prefix_of_mem_map_writtenMembers {path : ShapePath} {properties : List Property} :
    ∀ q ∈ (writtenMembers path properties).map Written.path, path <+: q := by
  intro q hq
  obtain ⟨w, hw, rfl⟩ := List.mem_map.1 hq
  obtain ⟨p, -, hbelow⟩ := prefix_of_mem_writtenMembers hw
  exact (List.prefix_append _ _).trans hbelow

theorem prefix_of_mem_map_writtenInType {t : TypeDeclaration} :
    ∀ q ∈ (writtenInType t).map Written.path, ShapePath.ofType t.id <+: q := by
  intro q hq
  rcases t.shape.enumeration_or_record_or_alias with ⟨l, hshape⟩ | ⟨l, hshape⟩ | halias
  · simp [writtenInType, hshape] at hq
  · rw [writtenInType_of_record hshape] at hq
    exact prefix_of_mem_map_writtenMembers q hq
  · rw [writtenInType_of_alias halias] at hq
    obtain ⟨w, hw, rfl⟩ := List.mem_map.1 hq
    exact prefix_of_mem_writtenTypes hw

theorem prefix_of_mem_map_writtenInCommand {c : Schema.Command} :
    ∀ q ∈ (writtenInCommand c).map Written.path,
      ShapePath.commandParameters c.name <+: q ∨ ShapePath.commandReturns c.name <+: q := by
  intro q hq
  rw [writtenInCommand, List.map_append] at hq
  rcases List.mem_append.1 hq with hq | hq
  · exact .inl (prefix_of_mem_map_writtenMembers q hq)
  · exact .inr (prefix_of_mem_map_writtenMembers q hq)

theorem root_of_mem_writtenInTypes {d : Schema.Domain} :
    ∀ q ∈ d.types.flatMap fun t => (writtenInType t).map Written.path, ["type"] <+: q := by
  intro q hq
  obtain ⟨t, -, hq⟩ := List.mem_flatMap.1 hq
  exact (List.prefix_append ["type"] [t.id]).trans (prefix_of_mem_map_writtenInType q hq)

theorem root_of_mem_writtenInCommands {d : Schema.Domain} :
    ∀ q ∈ d.commands.flatMap fun c => (writtenInCommand c).map Written.path,
      ["command"] <+: q := by
  intro q hq
  obtain ⟨c, -, hq⟩ := List.mem_flatMap.1 hq
  rcases prefix_of_mem_map_writtenInCommand q hq with hbelow | hbelow
  · exact (List.prefix_append ["command"] [c.name, "parameters"]).trans hbelow
  · exact (List.prefix_append ["command"] [c.name, "returns"]).trans hbelow

theorem root_of_mem_writtenInEvents {d : Schema.Domain} :
    ∀ q ∈ d.events.flatMap fun e => (writtenInEvent e).map Written.path, ["event"] <+: q := by
  intro q hq
  obtain ⟨e, -, hq⟩ := List.mem_flatMap.1 hq
  exact (List.prefix_append ["event"] [e.name, "parameters"]).trans
    (prefix_of_mem_map_writtenMembers q hq)

theorem ne_of_mem_writtenInDomain {d : Schema.Domain} {q : ShapePath}
    (hq : q ∈ (writtenInDomain d).map Written.path) (name : String) :
    q ≠ .commandResult name ∧ q ≠ .eventPayload name := by
  simp only [writtenInDomain, List.map_append, List.mem_append, List.map_flatMap,
    List.mem_flatMap] at hq
  rcases hq with (⟨t, -, hq⟩ | ⟨c, -, hq⟩) | ⟨e, -, hq⟩
  · have hbelow := prefix_of_mem_map_writtenInType q hq
    constructor
    · rintro rfl
      simp [ShapePath.ofType, ShapePath.commandResult] at hbelow
    · rintro rfl
      simp [ShapePath.ofType, ShapePath.eventPayload] at hbelow
  · have hbelow := prefix_of_mem_map_writtenInCommand q hq
    constructor
    · rintro rfl
      simp [ShapePath.commandParameters, ShapePath.commandReturns,
        ShapePath.commandResult] at hbelow
    · rintro rfl
      simp [ShapePath.commandParameters, ShapePath.commandReturns,
        ShapePath.eventPayload] at hbelow
  · have hbelow : ShapePath.eventParameters e.name <+: q :=
      prefix_of_mem_map_writtenMembers q hq
    constructor
    · rintro rfl
      simp [ShapePath.eventParameters, ShapePath.commandResult] at hbelow
    · rintro rfl
      simp [ShapePath.eventParameters, ShapePath.eventPayload] at hbelow

section

variable {d : Schema.Domain} (h : DistinctSiblings d)

include h

theorem DistinctSiblings.nodup_writtenTypes {description : String} {path : ShapePath}
    {shape : Shape} (hstands : Stands d path shape) :
    ((writtenTypes description path shape).map Written.path).Nodup := by
  induction shape generalizing description path with
  | reference target => exact List.nodup_nil
  | scalar kind => exact List.nodup_nil
  | enumeration literals => exact List.nodup_singleton _
  | record properties ih =>
      rw [writtenTypes, List.map_cons, List.nodup_cons]
      constructor
      · intro hmem
        obtain ⟨w, hw, hpath⟩ := List.mem_map.1 hmem
        obtain ⟨p, -, hbelow⟩ := prefix_of_mem_writtenMembers hw
        have hlength := hbelow.length_le
        rw [hpath] at hlength
        simp only [List.length_append, List.length_cons, List.length_nil] at hlength
        omega
      · exact nodup_writtenMembers_of_types (h.nested hstands) fun p hp =>
          ih p hp (hstands.property hp)
  | array item ih => exact ih hstands.item

theorem DistinctSiblings.nodup_writtenMembers {path : ShapePath} {properties : List Property}
    (hlist : MemberList d path properties) :
    ((writtenMembers path properties).map Written.path).Nodup :=
  nodup_writtenMembers_of_types (h.members hlist) fun _ hp =>
    h.nodup_writtenTypes (.member hlist hp)

theorem DistinctSiblings.nodup_writtenInType {t : TypeDeclaration} (ht : t ∈ d.types) :
    ((writtenInType t).map Written.path).Nodup := by
  rcases t.shape.enumeration_or_record_or_alias with ⟨l, hshape⟩ | ⟨l, hshape⟩ | halias
  · simp [writtenInType, hshape]
  · rw [writtenInType_of_record hshape]
    exact h.nodup_writtenMembers (.type ht hshape)
  · rw [writtenInType_of_alias halias]
    exact h.nodup_writtenTypes (.body ht halias)

theorem DistinctSiblings.nodup_writtenInCommand {c : Schema.Command} (hc : c ∈ d.commands) :
    ((writtenInCommand c).map Written.path).Nodup := by
  rw [writtenInCommand, List.map_append, List.nodup_append']
  refine ⟨h.nodup_writtenMembers (.parameters hc), h.nodup_writtenMembers (.returns hc), ?_⟩
  have hne : "parameters" ≠ "returns" := by decide
  exact @disjoint_of_below ["command", c.name] _ _ _ _ hne
    prefix_of_mem_map_writtenMembers prefix_of_mem_map_writtenMembers

variable (hids : (d.types.map TypeDeclaration.id).Nodup)

include hids

theorem DistinctSiblings.nodup_writtenInDomain :
    ((writtenInDomain d).map Written.path).Nodup := by
  have htypes : (d.types.flatMap fun t => (writtenInType t).map Written.path).Nodup :=
    @nodup_flatMap_of_below _ _ _ _ ["type"] hids (fun t ht => h.nodup_writtenInType ht)
      fun t _ => prefix_of_mem_map_writtenInType
  have hcommands : (d.commands.flatMap fun c => (writtenInCommand c).map Written.path).Nodup := by
    apply @nodup_flatMap_of_below _ _ _ _ ["command"] h.commands
    · exact fun c hc => h.nodup_writtenInCommand hc
    · intro c _ q hq
      rcases prefix_of_mem_map_writtenInCommand q hq with hbelow | hbelow
      · exact (List.prefix_append ["command", c.name] ["parameters"]).trans hbelow
      · exact (List.prefix_append ["command", c.name] ["returns"]).trans hbelow
  have hevents : (d.events.flatMap fun e => (writtenInEvent e).map Written.path).Nodup := by
    apply @nodup_flatMap_of_below _ _ _ _ ["event"] h.events
    · exact fun e he => h.nodup_writtenMembers (.event he)
    · intro e _ q hq
      exact (List.prefix_append ["event", e.name] ["parameters"]).trans
        (prefix_of_mem_map_writtenMembers q hq)
  simp only [writtenInDomain, List.map_append, List.map_flatMap, List.nodup_append',
    List.disjoint_append_left]
  refine ⟨⟨htypes, hcommands, ?_⟩, hevents, ?_, ?_⟩
  · exact @disjoint_of_below [] _ _ _ _ (by decide) root_of_mem_writtenInTypes
      root_of_mem_writtenInCommands
  · exact @disjoint_of_below [] _ _ _ _ (by decide) root_of_mem_writtenInTypes
      root_of_mem_writtenInEvents
  · exact @disjoint_of_below [] _ _ _ _ (by decide) root_of_mem_writtenInCommands
      root_of_mem_writtenInEvents

/-- Names that are distinct among their siblings give distinct paths. -/
theorem DistinctSiblings.nodup_synthesizedPaths : (synthesizedPaths d).Nodup := by
  have hnames : ((returning d).map Schema.Command.name).Nodup :=
    h.commands.sublist (List.Sublist.map _ List.filter_sublist)
  have hresults : ((returning d).map fun c => ShapePath.commandResult c.name).Nodup := by
    have hmap := hnames.map (f := ShapePath.commandResult) fun a b hab => by
      simpa [ShapePath.commandResult] using hab
    rwa [List.map_map] at hmap
  have hpayloads : (d.events.map fun e => ShapePath.eventPayload e.name).Nodup := by
    have hmap := h.events.map (f := ShapePath.eventPayload) fun a b hab => by
      simpa [ShapePath.eventPayload] using hab
    rwa [List.map_map] at hmap
  unfold synthesizedPaths
  rw [List.nodup_append', List.nodup_append', List.disjoint_append_left]
  refine ⟨⟨h.nodup_writtenInDomain hids, hresults, ?_⟩, hpayloads, ?_, ?_⟩
  · intro q hq hresult
    obtain ⟨c, -, rfl⟩ := List.mem_map.1 hresult
    exact (ne_of_mem_writtenInDomain hq c.name).1 rfl
  · intro q hq hpayload
    obtain ⟨e, -, rfl⟩ := List.mem_map.1 hpayload
    exact (ne_of_mem_writtenInDomain hq e.name).2 rfl
  · intro q hresult hpayload
    obtain ⟨c, -, rfl⟩ := List.mem_map.1 hresult
    obtain ⟨e, -, hpath⟩ := List.mem_map.1 hpayload
    simp [ShapePath.eventPayload, ShapePath.commandResult] at hpath

end

end WireBindings.Binding
