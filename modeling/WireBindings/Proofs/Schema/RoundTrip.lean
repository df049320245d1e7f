import WireBindings.Proofs.FileTree.Operations
import WireBindings.Proofs.Json.RoundTrip
import WireBindings.Proofs.Schema.Written
import WireBindings.Schema.File

/-!
# Saving and loading a document

A document that was read is loaded again from the file it is saved to.
-/

namespace WireBindings.Schema

open Json (Value)

/-! ## Values that need no numbers -/

structure PlainOn (keys : List String) (node : Entries) : Prop where
  keysIn : KeysIn node keys
  plain : ∀ e ∈ node, e.2.Plain

namespace PlainOn

theorem append {keys keys' : List String} {node node' : Entries} (h : PlainOn keys node)
    (h' : PlainOn keys' node') : PlainOn (keys ++ keys') (node ++ node') where
  keysIn := h.keysIn.append h'.keysIn
  plain := List.forall_mem_append.2 ⟨h.plain, h'.plain⟩

theorem cons {keys : List String} {node : Entries} (h : PlainOn keys node) {v : Value}
    (hv : v.Plain) (key : String) : PlainOn (key :: keys) ((key, v) :: node) where
  keysIn := h.keysIn.cons key v
  plain := List.forall_mem_cons.2 ⟨hv, h.plain⟩

theorem nil : PlainOn [] [] where
  keysIn := List.Sublist.slnil
  plain := fun _ he => absurd he List.not_mem_nil

theorem entryIf {v : Value} (hv : v.Plain) (b : Bool) (key : String) :
    PlainOn [key] (Schema.entryIf b key v) where
  keysIn := keysIn_entryIf b key v
  plain := by
    cases b
    · exact nil.plain
    · exact (nil.cons hv key).plain

theorem advisoryEntries (a : Advisory) : PlainOn advisoryKeys (Schema.advisoryEntries a) := by
  rw [advisoryEntries_eq]
  exact ((entryIf (.text _) _ _).append (entryIf (.bool _) _ _)).append (entryIf (.bool _) _ _)

theorem listEntry {α : Type} {f : α → Value} (h : ∀ x, (f x).Plain) (key : String)
    (items : List α) : PlainOn [key] (Schema.listEntry key (items.map f)) := by
  rw [listEntry_eq]
  exact entryIf (.array (List.forall_mem_map.2 fun x _ => h x)) _ _

theorem object {keys : List String} {node : Entries} (h : PlainOn keys node)
    (hnodup : keys.Nodup) : (Value.object node).Plain :=
  .object (hnodup.sublist h.keysIn) h.plain

end PlainOn

theorem plain_propertyValue {p : Property} (h : PlainOn shapeKeys (shapeEntries p.type)) :
    (propertyValue p).Plain := by
  have hhead := (PlainOn.advisoryEntries p.advisory).cons (.text p.name) "name"
  have hoptional := PlainOn.entryIf (.bool true) p.optional "optional"
  exact ((hhead.append hoptional).append h).object (by decide)

theorem plainOn_shapeEntries (shape : Shape) : PlainOn shapeKeys (shapeEntries shape) where
  keysIn := keysIn_shapeEntries shape
  plain := by
    induction shape with
    | reference target => exact (PlainOn.nil.cons (.text _) _).plain
    | scalar kind => exact (PlainOn.nil.cons (.text _) _).plain
    | enumeration literals =>
        have henum : (Value.array (literals.map Value.text)).Plain :=
          .array (List.forall_mem_map.2 fun s _ => .text s)
        exact ((PlainOn.nil.cons henum _).cons (.text _) _).plain
    | record properties ih =>
        have hproperties : (Value.array (propertyValues properties)).Plain := by
          rw [propertyValues_eq_map]
          exact .array (List.forall_mem_map.2 fun p hp =>
            plain_propertyValue ⟨keysIn_shapeEntries p.type, ih p hp⟩)
        exact ((PlainOn.nil.cons hproperties _).cons (.text _) _).plain
    | array item ih =>
        have hnode : PlainOn shapeKeys (shapeEntries item) := ⟨keysIn_shapeEntries item, ih⟩
        exact ((PlainOn.nil.cons (hnode.object (by decide)) _).cons (.text _) _).plain

theorem plainOn_members (key : String) (properties : List Property) :
    PlainOn [key] (listEntry key (propertyValues properties)) := by
  rw [propertyValues_eq_map]
  exact PlainOn.listEntry (fun p => plain_propertyValue (plainOn_shapeEntries p.type)) key _

theorem TypeDeclaration.plain_toValue (t : TypeDeclaration) : t.toValue.Plain := by
  have hhead := (PlainOn.advisoryEntries t.advisory).cons (.text t.id) "id"
  exact (hhead.append (plainOn_shapeEntries t.shape)).object (by decide)

theorem Command.plain_toValue (c : Command) : c.toValue.Plain := by
  have hhead := (PlainOn.advisoryEntries c.advisory).cons (.text c.name) "name"
  have hparameters := plainOn_members "parameters" c.parameters
  have hreturns := plainOn_members "returns" c.returns
  exact ((hhead.append hparameters).append hreturns).object (by decide)

theorem Event.plain_toValue (e : Event) : e.toValue.Plain := by
  have hhead := (PlainOn.advisoryEntries e.advisory).cons (.text e.name) "name"
  have hparameters := plainOn_members "parameters" e.parameters
  exact (hhead.append hparameters).object (by decide)

theorem Domain.plain_toValue (d : Domain) : d.toValue.Plain := by
  have hhead := (PlainOn.advisoryEntries d.advisory).cons (.text d.name) "domain"
  have hdependencies := PlainOn.listEntry Value.Plain.text "dependencies" d.dependencies
  have htypes := PlainOn.listEntry TypeDeclaration.plain_toValue "types" d.types
  have hcommands := PlainOn.listEntry Command.plain_toValue "commands" d.commands
  have hevents := PlainOn.listEntry Event.plain_toValue "events" d.events
  exact ((((hhead.append hdependencies).append htypes).append hcommands).append hevents).object
    (by decide)

theorem Document.plain_toValue (m : Document) : m.toValue.Plain := by
  obtain ⟨domains, version⟩ := m
  have hdomains : (Value.array (domains.map Domain.toValue)).Plain :=
    .array (List.forall_mem_map.2 fun d _ => d.plain_toValue)
  have hlast := PlainOn.nil.cons hdomains "domains"
  cases version with
  | none => exact hlast.object (by decide)
  | some version =>
      have hparts := (PlainOn.nil.cons (.text version.minor) "minor").cons (.text version.major)
        "major"
      have hversion : version.toValue.Plain := hparts.object (by decide)
      exact (hlast.cons hversion "version").object (by decide)

/-! ## The content of a document file -/

theorem Document.readable_fileText (m : Document) :
    Text.readable m.fileText.toUTF8 = .ok m.fileText := by
  refine Json.readable_toUTF8 ?_
  rw [fileText, String.toList_append, Json.isLineText_append]
  exact ⟨m.plain_toValue.isLineText .indented 0, by decide⟩

theorem Document.read_fileText (m : Document) : Value.read m.fileText = .ok m.toValue :=
  m.plain_toValue.read_write .indented (by decide)

/-- The content of a file that a document is saved to holds the document. -/
theorem Document.IsDirect.ofContent_fileText {m : Document} (h : m.IsDirect) (name : String) :
    Document.ofContent name m.fileText.toUTF8 = .ok m := by
  unfold Document.ofContent
  rw [m.readable_fileText, Except.mapError, Outcome.ok_bind, m.read_fileText]
  simp only
  rw [h.ofValue_toValue name]
  rfl

/-! ## Files -/

/-- A saved document is what was written last. -/
theorem Document.exists_write_of_save {m : Document} {path : String} {t t' : FileTree}
    (h : m.save path t = (.ok (), t')) : ∃ u : FileTree, u.write path m.fileText.toUTF8 = .ok t' := by
  unfold save at h
  simp only at h
  split at h
  · obtain ⟨found, u, -, h⟩ := Outcome.bind_run_eq_ok h
    split at h
    · obtain ⟨-, v, -, h⟩ := Outcome.bind_run_eq_ok h
      exact ⟨v, FileM.write_eq_ok.1 h⟩
    · exact ⟨u, FileM.write_eq_ok.1 h⟩
  · exact ⟨t, FileM.write_eq_ok.1 h⟩

theorem load_of_read {path : String} {content : ByteArray} {t : FileTree}
    (hread : t.read path = .ok content) :
    load [path] t = (Document.ofContent (Path.baseName path) content, t) := by
  have hlift : (liftM (FileM.read path) : Session ByteArray) t = (.ok content, t) := by
    have hrun := FileM.read_of_eq_ok hread
    exact congrArg (fun r : Except FileError ByteArray × FileTree =>
      (r.1.mapError Failure.file, r.2)) hrun
  have hfile : readFile path t = (Document.ofContent (Path.baseName path) content, t) := by
    unfold readFile
    rw [Outcome.bind_run_of_ok hlift]
    rfl
  unfold load
  rw [List.mapM_cons, List.mapM_nil, bind_assoc]
  cases hcontent : Document.ofContent (Path.baseName path) content with
  | error failure => rw [Outcome.bind_run_of_error (hcontent ▸ hfile)]
  | ok m =>
      rw [Outcome.bind_run_of_ok (hcontent ▸ hfile)]
      rfl

theorem load_singleton {path : String} {content : ByteArray} {t : FileTree} {m : Document}
    (hread : t.read path = .ok content)
    (hcontent : Document.ofContent (Path.baseName path) content = .ok m) :
    load [path] t = (.ok m, t) := by
  rw [load_of_read hread, hcontent]

/-- The value of a document without what a reading passes over. -/
def normalize (v : Value) (root : String) : Read Value := (Document.ofValue v root).map (·.toValue)

/-- A document that was read is read again from its value and loaded again from its file, so its
value says everything about it and is normal. -/
theorem document_round_trip {v : Value} {root : String} {m : Document}
    (h : Document.ofValue v root = .ok m) :
    (∀ root', Document.ofValue m.toValue root' = .ok m) ∧
      (∀ v' root' m', Document.ofValue v' root' = .ok m' → m'.toValue = m.toValue → m' = m) ∧
      (∀ root', normalize v root >>= (normalize · root') = normalize v root) ∧
      ∀ path t t', m.save path t = (.ok (), t') → load [path] t' = (.ok m, t') := by
  have hdirect := Document.isDirect_of_ofValue h
  have hback (root' : String) : Document.ofValue m.toValue root' = .ok m :=
    hdirect.ofValue_toValue root'
  refine ⟨hback, ?_, ?_, ?_⟩
  · intro v' root' m' h' heq
    have hback' := (Document.isDirect_of_ofValue h').ofValue_toValue root'
    rw [heq, hback root'] at hback'
    exact (Except.ok.inj hback').symm
  · intro root'
    have hnormal : normalize v root = .ok m.toValue := by rw [normalize, h, Except.map]
    rw [hnormal, Outcome.ok_bind, normalize, hback, Except.map]
  · intro path t t' hsave
    obtain ⟨u, hwrite⟩ := Document.exists_write_of_save hsave
    exact load_singleton (FileTree.read_of_write hwrite)
      (hdirect.ofContent_fileText (Path.baseName path))

theorem document_round_trip_storage :
    let v : Value := .object [("version", .object [("major", .number (.integer 1))]),
      ("domains", .array [.object [("domain", .text "Storage"), ("deprecated", .bool false),
        ("events", .array [.object [("name", .text "changed"),
          ("parameters", .array [.object [("name", .text "kind"), ("type", .text "string"),
            ("enum", .array [])]])]])]])]
    let m : Document := {
      domains := [{ name := "Storage", events := [{
        name := "changed", parameters := [{ name := "kind", type := .enumeration [] }] }] }]
      version := some { major := "1", minor := "" } }
    Document.ofValue v "$" = .ok m ∧ Document.ofValue m.toValue "$" = .ok m := by
  intro v m
  have h : Document.ofValue v "$" = .ok m := by
    simp only [v, m]
    cbv
  exact ⟨h, (document_round_trip h).1 "$"⟩

end WireBindings.Schema
