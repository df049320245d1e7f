import WireBindings.Proofs.Binding.Positions

/-!
# Paths are unambiguous

A path is read from its start, and what a step adds to it tells the name of the step. So the path of
a position tells the names on the way there, and positions that share a path part at siblings with
one name.
-/

namespace WireBindings.Binding

open Schema (Shape Property TypeDeclaration)

namespace Position

/-- Spots of one kind; a domain, whose types have an id of their own, is only of a kind with
itself. -/
inductive Kin : Spot → Spot → Prop
  | domain {d : Schema.Domain} (hids : (d.types.map TypeDeclaration.id).Nodup) :
      Kin (.domain d) (.domain d)
  | command (c c' : Schema.Command) : Kin (.command c) (.command c')
  | event (e e' : Schema.Event) : Kin (.event e) (.event e')
  | members (properties properties' : List Property) :
      Kin (.members properties) (.members properties')
  | shape (shape shape' : Shape) : Kin (.shape shape) (.shape shape')
  | result : Kin .result .result
  | payload : Kin .payload .payload

theorem eq_of_id {types : List TypeDeclaration} (hids : (types.map TypeDeclaration.id).Nodup)
    {i j : Nat} {t t' : TypeDeclaration} (ht : types[i]? = some t) (ht' : types[j]? = some t')
    (hid : t.id = t'.id) : t = t' :=
  List.inj_on_of_nodup_map hids (List.mem_of_getElem? ht) (List.mem_of_getElem? ht') hid

theorem place_eq_of_id {types : List TypeDeclaration}
    (hids : (types.map TypeDeclaration.id).Nodup) {i j : Nat} {t t' : TypeDeclaration}
    (ht : types[i]? = some t) (ht' : types[j]? = some t') (hid : t.id = t'.id) : i = j := by
  obtain rfl := eq_of_id hids ht ht' hid
  obtain ⟨hlt, -⟩ := List.getElem?_eq_some_iff.1 ht
  exact (List.getElem?_inj hlt hids.of_map).1 (ht.trans ht'.symm)

theorem Inside.kin {t : TypeDeclaration} {s : Spot} (h : Inside t s) : Kin s s := by
  cases h with
  | record => exact .members _ _
  | body => exact .shape _ _

/-! ## What a step adds to the path tells its name -/

theorem Next.piece_ne_nil {s t : Spot} {x : Step Nat} {name : Step String} {piece : ShapePath}
    (h : Next s x name piece t) : piece ≠ [] := by
  cases h <;> exact List.cons_ne_nil _ _

/-- What one step adds to a path is never the beginning of what another step of the kind adds. -/
theorem Next.unambiguous {s s' t t' : Spot} {x x' : Step Nat} {name name' : Step String}
    {piece piece' : ShapePath} (hkin : Kin s s') (h : Next s x name piece t)
    (h' : Next s' x' name' piece' t') {rest rest' : ShapePath}
    (heq : piece ++ rest = piece' ++ rest') : name = name' ∧ Kin t t' ∧ rest = rest' := by
  cases hkin with
  | domain hids =>
      cases h with
      | @type _ _ t _ ht hinside =>
          cases h' with
          | @type _ _ t' _ ht' hinside' =>
              obtain ⟨hid, hrest⟩ : t.id = t'.id ∧ rest = rest' := by simpa using heq
              obtain rfl := eq_of_id hids ht ht' hid
              obtain rfl := hinside.unique hinside'
              exact ⟨rfl, hinside.kin, hrest⟩
          | _ => simp at heq
      | @command _ _ c hc =>
          cases h' with
          | @command _ _ c' hc' =>
              obtain ⟨hname, hrest⟩ : c.name = c'.name ∧ rest = rest' := by simpa using heq
              exact ⟨congrArg Step.command hname, .command c c', hrest⟩
          | _ => simp at heq
      | @event _ _ e he =>
          cases h' with
          | @event _ _ e' he' =>
              obtain ⟨hname, hrest⟩ : e.name = e'.name ∧ rest = rest' := by simpa using heq
              exact ⟨congrArg Step.event hname, .event e e', hrest⟩
          | _ => simp at heq
  | command c c' =>
      cases h with
      | parameters =>
          cases h' with
          | parameters => exact ⟨rfl, .members _ _, (List.cons.inj heq).2⟩
          | _ => simp at heq
      | returns =>
          cases h' with
          | returns => exact ⟨rfl, .members _ _, (List.cons.inj heq).2⟩
          | _ => simp at heq
      | result =>
          cases h' with
          | result => exact ⟨rfl, .result, (List.cons.inj heq).2⟩
          | _ => simp at heq
  | event e e' =>
      cases h with
      | eventParameters =>
          cases h' with
          | eventParameters => exact ⟨rfl, .members _ _, (List.cons.inj heq).2⟩
          | payload => simp at heq
      | payload =>
          cases h' with
          | eventParameters => simp at heq
          | payload => exact ⟨rfl, .payload, (List.cons.inj heq).2⟩
  | members properties properties' =>
      cases h with
      | @member _ _ p hp =>
          cases h' with
          | @member _ _ p' hp' =>
              obtain ⟨hname, hrest⟩ := List.cons.inj heq
              exact ⟨congrArg Step.member hname, .shape _ _, hrest⟩
  | shape shape shape' =>
      cases h with
      | @property _ _ p hp =>
          cases h' with
          | @property _ _ p' hp' =>
              obtain ⟨hname, hrest⟩ : p.name = p'.name ∧ rest = rest' := by simpa using heq
              exact ⟨congrArg Step.member hname, .shape _ _, hrest⟩
          | item => simp at heq
      | item =>
          cases h' with
          | property hp' => simp at heq
          | item => exact ⟨rfl, .shape _ _, (List.cons.inj heq).2⟩
  | result => cases h
  | payload => cases h

/-- A path tells the names on the way to where it leads. -/
theorem Leads.unambiguous {s s' t t' : Spot} {address address' : Address}
    {names names' : List (Step String)} {path path' : ShapePath} (hkin : Kin s s')
    (h : Leads s address names path t) (h' : Leads s' address' names' path' t')
    (hpath : path = path') : names = names' := by
  induction h generalizing s' address' names' path' with
  | here s =>
      cases h' with
      | here => rfl
      | step hnext _ => exact absurd (List.append_eq_nil_iff.1 hpath.symm).1 hnext.piece_ne_nil
  | step hnext _ ih =>
      cases h' with
      | here => exact absurd (List.append_eq_nil_iff.1 hpath).1 hnext.piece_ne_nil
      | step hnext' hrest' =>
          obtain ⟨rfl, hkin', hpath'⟩ := hnext.unambiguous hkin hnext' hpath
          rw [ih hkin' hrest' hpath']

/-! ## Where addresses part -/

inductive Twins : Spot → Step Nat → Step Nat → Prop
  | commands {d : Schema.Domain} {i j : Nat} {c c' : Schema.Command} (hne : i ≠ j)
      (hc : d.commands[i]? = some c) (hc' : d.commands[j]? = some c') (hname : c.name = c'.name) :
      Twins (.domain d) (.command i) (.command j)
  | events {d : Schema.Domain} {i j : Nat} {e e' : Schema.Event} (hne : i ≠ j)
      (he : d.events[i]? = some e) (he' : d.events[j]? = some e') (hname : e.name = e'.name) :
      Twins (.domain d) (.event i) (.event j)
  | members {properties : List Property} {i j : Nat} {p p' : Property} (hne : i ≠ j)
      (hp : properties[i]? = some p) (hp' : properties[j]? = some p') (hname : p.name = p'.name) :
      Twins (.members properties) (.member i) (.member j)
  | properties {properties : List Property} {i j : Nat} {p p' : Property} (hne : i ≠ j)
      (hp : properties[i]? = some p) (hp' : properties[j]? = some p') (hname : p.name = p'.name) :
      Twins (.shape (.record properties)) (.member i) (.member j)

/-- Two addresses go together up to a spot and part there, to two siblings of one name. -/
def PartAtTwins (s : Spot) (address address' : Address) : Prop :=
  ∃ common names path t x y rest rest', address = common ++ x :: rest ∧
    address' = common ++ y :: rest' ∧ Leads s common names path t ∧ Twins t x y

theorem Next.unique {s t t' : Spot} {x : Step Nat} {name name' : Step String}
    {piece piece' : ShapePath} (h : Next s x name piece t) (h' : Next s x name' piece' t') :
    t = t' := by
  cases h with
  | type ht hinside =>
      cases h' with
      | type ht' hinside' =>
          cases ht.symm.trans ht'
          exact hinside.unique hinside'
  | _ =>
      cases h'
      simp_all

theorem Next.eq_or_twins {s t t' : Spot} {x x' : Step Nat} {name name' : Step String}
    {piece piece' : ShapePath} (hkin : Kin s s) (h : Next s x name piece t)
    (h' : Next s x' name' piece' t') (hname : name = name') : x = x' ∨ Twins s x x' := by
  cases h with
  | type ht hinside =>
      cases hkin with
      | domain hids =>
          cases h' with
          | type ht' hinside' =>
              exact .inl (congrArg Step.type (place_eq_of_id hids ht ht' (Step.type.inj hname)))
          | _ => cases hname
  | @command _ i c hc =>
      cases h' with
      | @command _ j c' hc' =>
          rcases eq_or_ne i j with rfl | hne
          · exact .inl rfl
          · exact .inr (.commands hne hc hc' (Step.command.inj hname))
      | _ => cases hname
  | @event _ i e he =>
      cases h' with
      | @event _ j e' he' =>
          rcases eq_or_ne i j with rfl | hne
          · exact .inl rfl
          · exact .inr (.events hne he he' (Step.event.inj hname))
      | _ => cases hname
  | @member _ i p hp =>
      cases h' with
      | @member _ j p' hp' =>
          rcases eq_or_ne i j with rfl | hne
          · exact .inl rfl
          · exact .inr (.members hne hp hp' (Step.member.inj hname))
  | @property _ i p hp =>
      cases h' with
      | @property _ j p' hp' =>
          rcases eq_or_ne i j with rfl | hne
          · exact .inl rfl
          · exact .inr (.properties hne hp hp' (Step.member.inj hname))
  | _ =>
      -- Every other step is the only one of its name.
      cases h'
      all_goals first | exact .inl rfl | cases hname

/-- Different addresses along the same names part at two siblings of one name. -/
theorem Leads.partAtTwins {s t t' : Spot} {address address' : Address}
    {names names' : List (Step String)} {path path' : ShapePath} (hkin : Kin s s)
    (h : Leads s address names path t) (h' : Leads s address' names' path' t')
    (hnames : names = names') (hne : address ≠ address') : PartAtTwins s address address' := by
  induction h generalizing address' names' path' with
  | here s =>
      cases h' with
      | here => exact absurd rfl hne
      | step => cases hnames
  | @step s _ _ x name piece rest names path hnext hrest ih =>
      cases h' with
      | here => cases hnames
      | @step _ _ _ x' name' piece' rest' names' path' hnext' hrest' =>
          obtain ⟨hname, hnames⟩ := List.cons.inj hnames
          rcases hnext.eq_or_twins hkin hnext' hname with rfl | htwins
          · obtain rfl := hnext.unique hnext'
            have hkin' := (hnext.unambiguous hkin hnext (rfl : piece ++ path = piece ++ path)).2.1
            have hne' : rest ≠ rest' := fun heq => hne (congrArg (x :: ·) heq)
            obtain ⟨common, _, _, u, y, y', end₁, end₂, rfl, rfl, hleads, htwins⟩ :=
              ih hkin' hrest' hnames hne'
            exact ⟨x :: common, _, _, u, y, y', end₁, end₂, rfl, rfl, .step hnext hleads, htwins⟩
          · exact ⟨[], [], [], s, x, x', rest, rest', rfl, rfl, .here s, htwins⟩

end Position

open Position

/-- Naming a domain makes one entry for each position that gets a synthesized name, under the path
of the position. Positions at one path have the same names on the way to them, and different ones
part at two commands, events or members of one name. -/
theorem shape_paths_unambiguous {d : Schema.Domain}
    (hids : (d.types.map TypeDeclaration.id).Nodup) :
    ((inDomain d).Nodup ∧
      (∀ address, address ∈ inDomain d ↔ ∃ names path, Locates (.domain d) address names path) ∧
      ∀ n, Naming.ofDomain d = .ok n → ∃ paths, paths.Perm (n.names.map Prod.fst) ∧
        List.Forall₂ (fun address path => ∃ names, Locates (.domain d) address names path)
          (inDomain d) paths) ∧
    ∀ address address' names names' path, Locates (.domain d) address names path →
      Locates (.domain d) address' names' path →
        names = names' ∧ (address ≠ address' → PartAtTwins (.domain d) address address') := by
  refine ⟨⟨nodup_inDomain d, fun _ => mem_inDomain_iff, ?_⟩, ?_⟩
  · intro n hn
    refine ⟨domainPaths d, perm_names hn, (forall₂_inDomain d).imp ?_⟩
    rintro address _ ⟨names, path, hlocates, rfl⟩
    exact ⟨names, hlocates⟩
  · rintro address address' names names' path ⟨t, h, -⟩ ⟨t', h', -⟩
    have hkin := Kin.domain hids
    have hnames := h.unambiguous hkin h' rfl
    exact ⟨hnames, h.partAtTwins hkin h' hnames⟩

/-- A domain with members whose names are those of the steps, and with two commands of one name. -/
def namesakes : Schema.Domain where
  name := "Page"
  types := [{ id := "items", shape := .record [{
    name := "items", type := .array (.record [{
      name := "properties", type := .enumeration ["a"] }]) }] }]
  commands := [
    { name := "go", returns := [{ name := "result", type := .enumeration ["a"] }] },
    { name := "go", returns := [{ name := "result", type := .enumeration ["b"] }] }]

theorem shape_paths_unambiguous_namesakes :
    (namesakes.types.map TypeDeclaration.id).Nodup ∧
    (∃ n, Naming.ofDomain namesakes = .ok n ∧ ∃ paths, paths.Perm (n.names.map Prod.fst) ∧
      List.Forall₂ (fun address path => ∃ names, Locates (.domain namesakes) address names path)
        (inDomain namesakes) paths) ∧
    (∃ names path, Locates (.domain namesakes) [.command 0, .returns, .member 0] names path ∧
      Locates (.domain namesakes) [.command 1, .returns, .member 0] names path) ∧
    PartAtTwins (.domain namesakes) [.command 0, .returns, .member 0]
      [.command 1, .returns, .member 0] := by
  have hids : (namesakes.types.map TypeDeclaration.id).Nodup := by decide
  obtain ⟨⟨-, -, hnames⟩, hpaths⟩ := shape_paths_unambiguous hids
  have hok : (Naming.ofDomain namesakes).isOk = true := by decide +kernel
  obtain ⟨n, hn⟩ := Outcome.exists_eq_ok_of_isOk hok
  have hreturned {i : Nat} {c : Schema.Command} {p : Property}
      (hc : namesakes.commands[i]? = some c) (hp : c.returns[0]? = some p) :
      Leads (.domain namesakes) [.command i, .returns, .member 0]
        [.command c.name, .returns, .member p.name] ["command", c.name, "returns", p.name]
        (.shape p.type) :=
    .step (.command hc) (.step (.returns c) (.step (.member hp) (.here _)))
  have hfirst := hreturned (i := 0) rfl rfl
  have hsecond := hreturned (i := 1) rfl rfl
  have hlocates : Locates (.domain namesakes) [.command 0, .returns, .member 0]
      [.command "go", .returns, .member "result"] ["command", "go", "returns", "result"] :=
    ⟨_, hfirst, .enumeration ["a"]⟩
  have hlocates' : Locates (.domain namesakes) [.command 1, .returns, .member 0]
      [.command "go", .returns, .member "result"] ["command", "go", "returns", "result"] :=
    ⟨_, hsecond, .enumeration ["b"]⟩
  exact ⟨hids, ⟨n, hn, hnames n hn⟩, ⟨_, _, hlocates, hlocates'⟩,
    (hpaths _ _ _ _ _ hlocates hlocates').2 (by decide)⟩

end WireBindings.Binding
