import ObjectGraph.Proofs.Materialize.RoundTrip

/-!
# Nodes at another consumer

A node that is made with the types of one index and read with those of another. The reader may not
know the type: what the node declares becomes dynamic members then, whose names have to be valid,
while names that a type declares are never checked. `Index.materialize_elsewhere` says that this is
the only way to fail, and that a node that is read has everything that was written.

The members are plain values, without nodes and maps in them (`Value.IsPlain`). Such values come
back as they are, whatever the reader knows.
-/

namespace ObjectGraph

namespace Value

/-- Null, booleans, integers, finite floats, texts, and lists of plain values. -/
inductive IsPlain : Value → Prop
  | null : IsPlain .null
  | bool (b : Bool) : IsPlain (.bool b)
  | int (n : Int64) : IsPlain (.int n)
  | float {x : Binary64} (finite : x.isFinite = true) : IsPlain (.float x)
  | string (s : String) : IsPlain (.string s)
  | list {items : List Value} (hitems : ∀ item ∈ items, IsPlain item) : IsPlain (.list items)

variable {v : Value}

/-- Plain values suit every index, for there is no node in them. -/
theorem IsPlain.suits (h : v.IsPlain) (index : Index) : index.Suits v := by
  induction h with
  | null => exact .null
  | bool b => exact .bool b
  | int n => exact .int n
  | float finite => exact .float finite
  | string s => exact .string s
  | list _ ih => exact .list ih

/-- No value but itself has the content of a plain value. -/
theorem IsPlain.eq_of_alike (h : v.IsPlain) {w : Value} (halike : v.Alike w) : w = v := by
  induction h generalizing w with
  | null | bool | int | float | string =>
      cases halike
      rfl
  | @list items _ ih =>
      cases halike with
      | @list _ others hlength halikes =>
          refine congrArg Value.list (List.ext_getElem hlength.symm ?_)
          intro i hother hitem
          exact ih _ (List.getElem_mem hitem) (halikes i hitem hother)

theorem isPlain_ofString? (s : Option String) : (ofString? s).IsPlain := by
  cases s with
  | none => exact .null
  | some s => exact .string s

end Value

namespace Node

/-- What writes of plain values make of a node. -/
inductive PlainlyWritten (start : Node) : Node → Prop
  | start : PlainlyWritten start start
  | set {n m : Node} {name : String} {value : Value} {previous : Option Value} :
      PlainlyWritten start n → value.IsPlain → n.set name value = .ok (previous, m) →
        PlainlyWritten start m

/-- A node with these declared members that holds plain values only. -/
structure PlainInstance (names : List String) (n : Node) : Prop where
  wellFormed : n.WellFormed
  declared : ∀ name, name ∈ Entries.keys n.declared ↔ name ∈ names
  plain : ∀ name v, n.get? name = some v → v.IsPlain

variable {names : List String} {n m : Node} {name : String} {value : Value}
  {previous : Option Value}

theorem isPlain_header (n : Node) (header : Header) : (n.header header).IsPlain := by
  cases header with
  | typeName => exact .string n.typeName
  | id => exact Value.isPlain_ofString? n.id
  | applicationId => exact Value.isPlain_ofString? n.applicationId

/-- A new node with declared members is a plain instance. -/
theorem plainInstance_withMembers (typeName : String) (names : List String) :
    PlainInstance names (withMembers typeName names) where
  wellFormed := (reachable_withMembers typeName names).wellFormed
  declared := fun _ => mem_declared_withMembers
  plain := by
    intro name v hget
    cases hname : Header.ofName? name with
    | some header =>
        rw [get?_of_header hname] at hget
        rw [← Option.some.inj hget]
        exact isPlain_header _ header
    | none =>
        -- The members are all declared, and null.
        obtain ⟨hdynamic, hdeclared⟩ := withMembers_members typeName names
        rw [get?_of_plain hname, hdynamic, hdeclared, Entries.get?_nil, Option.or_none] at hget
        split at hget
        · cases hget
          exact .null
        · cases hget

/-- Writing a plain value keeps a plain instance. -/
theorem PlainInstance.set (h : PlainInstance names n) (hvalue : value.IsPlain)
    (hset : n.set name value = .ok (previous, m)) : PlainInstance names m where
  wellFormed := h.wellFormed.set hset
  declared := by
    rw [(written_of_set hset).declared]
    exact h.declared
  plain := by
    intro other v hget
    rw [(written_of_set hset).get?] at hget
    split at hget
    · cases hget
      exact hvalue
    · exact h.plain other v hget

/-- Writes of plain values keep the declared names, and all values plain. -/
theorem PlainlyWritten.plainInstance {start : Node} (h : start.PlainlyWritten n)
    (hstart : PlainInstance names start) : PlainInstance names n := by
  induction h with
  | start => exact hstart
  | set _ hvalue hset ih => exact ih.set hvalue hset

/-- Every member has a name that is no header field's, and a plain value. -/
theorem PlainInstance.exists_get? (h : PlainInstance names n) (hfree : n.HeaderFree)
    (hname : name ∈ n.memberNames .all) :
    Header.ofName? name = none ∧ ∃ v, n.get? name = some v ∧ v.IsPlain := by
  obtain ⟨⟨_, v⟩, hmem, rfl⟩ := List.mem_map.1 hname
  have hget := h.wellFormed.get?_of_mem hfree hmem
  exact ⟨h.wellFormed.plain_of_mem hfree hname, v, hget, h.plain _ v hget⟩

end Node

namespace Index

variable {modules : List Module} {reader writer : Index} {names : List String} {n m : Node}
  {name : String}

/-- A plain value is read as it was written. -/
theorem materializes_plain (hbuilt : IsBuilt modules reader) (hfree : reader.HeaderFree)
    {v w : Value} (hv : v.IsPlain) (h : reader.Materializes v.toDocument w) : w = v :=
  hv.eq_of_alike (((hv.suits reader).readsBack hbuilt hfree).alike h)

/-- The node that is read has the header fields and the members of the node that was written, and
declares what the reader's type declares. -/
theorem exists_read (hbuilt : IsBuilt modules reader) (hfree : reader.HeaderFree)
    (hn : Node.PlainInstance names n) (hheaders : n.HeaderFree) {v : Value}
    (hv : reader.materialize n.toDocument = .ok v) :
    ∃ handle m, v = .node handle m ∧ m.typeName = n.typeName ∧ m.id = n.id ∧
      m.applicationId = n.applicationId ∧ (∀ name ∈ n.memberNames .all, m.get? name = n.get? name) ∧
      m.WellFormed ∧ ∀ name, name ∈ Entries.keys m.declared ↔
        name ∈ Entries.keys (reader.resolve n.typeName).properties := by
  obtain ⟨entries, hentries, hget, hread⟩ :=
    exists_materializeAt_node reader hn.wellFormed hheaders
  rw [materialize, hread] at hv
  obtain ⟨m, hfill, rfl⟩ := map_eq_ok_iff.1 hv
  have hm := fill_eq_ok hentries hfill
  -- The type chain is kept, the other header fields and the members come from the entries.
  have hid : m.header .id = n.header .id := header_filled hget hm nofun
  have happ : m.header .applicationId = n.header .applicationId := header_filled hget hm nofun
  refine ⟨⟨[]⟩, m, rfl, hm.typeName_eq, Value.ofString?_injective hid,
    Value.ofString?_injective happ, ?_, hm.wellFormed, fun _ => hm.mem_declared_iff⟩
  intro name hname
  obtain ⟨hplain, v, hv, hvalue⟩ := hn.exists_get? hheaders hname
  have hentry : Entries.get? name entries = some v.toDocument := by
    rw [hget, Node.documentAt?, hplain]
    dsimp only
    rw [hv, Option.map_some]
  obtain ⟨w, hw, hmget⟩ := hm.get?_of_some hplain hentry
  rw [hv, hmget, materializes_plain hbuilt hfree hvalue hw]

/-- The reader takes the declared members of a node that is read: each as one that its own type
declares, or under a valid name. -/
theorem taken_of_read (hbuilt : IsBuilt modules reader) (hfree : reader.HeaderFree)
    (hn : Node.PlainInstance names n) (hheaders : n.HeaderFree) {v : Value}
    (hv : reader.materialize n.toDocument = .ok v) (hname : name ∈ names) :
    Name.validate name = .ok () ∨ name ∈ Entries.keys (reader.resolve n.typeName).properties := by
  obtain ⟨handle, m, -, -, -, -, hmembers, hm, hdeclared⟩ := exists_read hbuilt hfree hn hheaders hv
  have hmember : name ∈ n.memberNames .all := by
    rw [Node.memberNames, Node.members, Entries.keys_append]
    exact List.mem_append_left _ ((hn.declared name).2 hname)
  obtain ⟨hplain, v, hget, -⟩ := hn.exists_get? hheaders hmember
  rw [← hmembers name hmember] at hget
  -- A member that the reader's type does not declare has become dynamic.
  by_cases hmem : name ∈ Entries.keys m.declared
  · exact .inr ((hdeclared name).1 hmem)
  · exact .inl (hm.valid name (hm.mem_dynamic_iff.2 ⟨hplain, hmem, v, hget⟩))

/-- A node is refused for the name of a declared member, which is not valid and which the reader's
type does not declare. -/
theorem refused_of_error (hbuilt : IsBuilt modules reader) (hfree : reader.HeaderFree)
    (hn : Node.PlainInstance names n) (hheaders : n.HeaderFree) {error : PropertyError}
    (herror : reader.materialize n.toDocument = .error error) :
    ∃ name ∈ names, Name.validate name = .error error ∧
      name ∉ Entries.keys (reader.resolve n.typeName).properties := by
  obtain ⟨entries, hentries, hget, hread⟩ := exists_materializeAt_node reader hn.wellFormed hheaders
  rw [materialize, hread, map_eq_error_iff] at herror
  obtain ⟨before, name, d, after, hsplit, hchain, -, place, hfails⟩ := fill_eq_error herror
  have hentry : (name, d) ∈ entries := by simp [hsplit]
  have hvalues : ∀ member ∈ n.members .all, reader.ReadsBack member.2 := by
    intro member hmember
    have hvalue := hn.plain _ _ (hn.wellFormed.get?_of_mem hheaders hmember)
    exact (hvalue.suits reader).readsBack hbuilt hfree
  have hd := (hget name).symm.trans (Entries.get?_of_mem hentries hentry)
  obtain ⟨v, hv, hkind⟩ := exists_value_of_documentAt? hd hchain hvalues place
  rw [hv] at hfails
  -- The value of the entry is read, so it is the write that fails.
  rcases hfails with hfails | ⟨w, m, hw, hset, hdeclared⟩
  · cases hfails
  cases hw
  rcases Node.set_eq_error hset with ⟨header, hheader, hrefused, -⟩ | ⟨hplain, hnew, hinvalid⟩
  · rcases hkind with ⟨other, hother, htakes⟩ | ⟨hplain, -⟩
    · rw [hheader] at hother
      cases hother
      exact absurd htakes hrefused
    · rw [hheader] at hplain
      cases hplain
  · rcases hkind with ⟨header, hheader, -⟩ | ⟨-, hmember⟩
    · rw [hplain] at hheader
      cases hheader
    · rw [hdeclared, mem_declared_instantiateAs] at hnew
      refine ⟨name, ?_, hinvalid, hnew⟩
      -- The name of a dynamic member is valid.
      by_contra hother
      have hnot : name ∉ Entries.keys n.declared := fun hmem => hother ((hn.declared name).1 hmem)
      have hvalid :=
        hn.wellFormed.valid name (hn.wellFormed.mem_dynamic_iff.2 ⟨hplain, hnot, hmember⟩)
      rw [hinvalid] at hvalid
      cases hvalid

/-- A node is made of a type of the writer's index and filled with plain values. It is read,
whatever the reader's index knows of that type, if each name that the type declares is valid or
declared by the type that the reader takes the node for; if one is neither, the node is refused with
the fault of such a name. What is read has the header fields of the node that was written, and all
of its members. -/
theorem materialize_elsewhere (hbuild : build modules = .ok reader) (hreader : reader.HeaderFree)
    (hwriter : writer.HeaderFree) {d : Descriptor} (hd : d ∈ writer.descriptors)
    (hn : d.instantiate.PlainlyWritten n) :
    ((∀ name ∈ Entries.keys d.properties, Name.validate name = .ok () ∨
        name ∈ Entries.keys (reader.resolve n.typeName).properties) ↔
      ∃ v, reader.materialize n.toDocument = .ok v) ∧
    (∀ error, reader.materialize n.toDocument = .error error →
      ∃ name ∈ Entries.keys d.properties, Name.validate name = .error error ∧
        name ∉ Entries.keys (reader.resolve n.typeName).properties) ∧
    ∀ v, reader.materialize n.toDocument = .ok v → ∃ handle m, v = .node handle m ∧
      m.typeName = n.typeName ∧ m.id = n.id ∧ m.applicationId = n.applicationId ∧
      ∀ name ∈ n.memberNames .all, m.get? name = n.get? name := by
  have hbuilt := isBuilt_of_build hbuild
  have hinstance := hn.plainInstance (Node.plainInstance_withMembers d.discriminator _)
  have hheaders : n.HeaderFree :=
    fun header hmem => hwriter d hd header ((hinstance.declared _).1 hmem)
  refine ⟨⟨?_, ?_⟩, ?_, ?_⟩
  · intro htaken
    cases hresult : reader.materialize n.toDocument with
    | ok v => exact ⟨v, rfl⟩
    | error error =>
        obtain ⟨name, hname, hinvalid, hnew⟩ :=
          refused_of_error hbuilt hreader hinstance hheaders hresult
        rcases htaken name hname with hvalid | hmem
        · rw [hinvalid] at hvalid
          cases hvalid
        · exact absurd hmem hnew
  · rintro ⟨v, hv⟩ name hname
    exact taken_of_read hbuilt hreader hinstance hheaders hv hname
  · exact fun error herror => refused_of_error hbuilt hreader hinstance hheaders herror
  · intro v hv
    obtain ⟨handle, m, heq, htype, hid, happ, hmembers, -⟩ :=
      exists_read hbuilt hreader hinstance hheaders hv
    exact ⟨handle, m, heq, htype, hid, happ, hmembers⟩

end Index

/-! ## A reader that knows the root type only -/

/-- A type with a member that no node can get at run time. -/
def Module.beamKit : List Module :=
  [{ name := "Kit"
     types := [{
       handle := ⟨18, "Beam"⟩
       typeName := some "Kit.Beam"
       parent := some TypeHandle.root
       members := [Accessor.ofName "size.x"] }] }]

/-- What an index that knows beams holds about them. -/
def Descriptor.sampleBeam : Descriptor where
  canonicalName := "Kit.Beam"
  handle := ⟨18, "Beam"⟩
  ancestry := ["Kit.Beam"]
  deprecatedNames := []
  properties := [("size.x", ⟨"size.x", false⟩)]

/-- The index of the kit of beams. -/
def Index.beamIndex : Index where
  descriptors := [Descriptor.sampleRoot, Descriptor.sampleBeam]
  names := [("Base", Descriptor.sampleRoot), ("Kit.Beam", Descriptor.sampleBeam)]
  fallback := Descriptor.sampleRoot
  modules := ["Kit"]

/-- The index that is built from no modules. -/
def Index.rootIndex : Index where
  descriptors := [Descriptor.sampleRoot]
  names := [("Base", Descriptor.sampleRoot)]
  fallback := Descriptor.sampleRoot
  modules := []

/-- A column with a list as its height, and a note. -/
def Node.plainColumn : Node where
  typeName := "Kit.Column"
  id := none
  applicationId := some "c1"
  declared := [("height", .list [.int 3, .list [.null, .string "m"]]), ("@parts", .null)]
  dynamic := [("note", .bool true)]

/-- The column is made by writing plain values only. -/
theorem Node.plainlyWritten_plainColumn :
    Descriptor.sampleColumn.instantiate.PlainlyWritten plainColumn := by
  have hheight : Descriptor.sampleColumn.instantiate.set "height"
      (.list [.int 3, .list [.null, .string "m"]]) =
        .ok (some .null, { plainColumn with applicationId := none, dynamic := [] }) := rfl
  have hnote :
      ({ plainColumn with applicationId := none, dynamic := [] } : Node).set "note" (.bool true) =
        .ok (none, { plainColumn with applicationId := none }) := rfl
  have happ :
      ({ plainColumn with applicationId := none } : Node).set "applicationId" (.string "c1") =
        .ok (some .null, plainColumn) := rfl
  have hinner : (Value.list [.null, .string "m"]).IsPlain :=
    .list (List.forall_mem_cons.2 ⟨.null, List.forall_mem_singleton.2 (.string "m")⟩)
  have hlist : (Value.list [.int 3, .list [.null, .string "m"]]).IsPlain :=
    .list (List.forall_mem_cons.2 ⟨.int 3, List.forall_mem_singleton.2 hinner⟩)
  exact ((PlainlyWritten.start.set hlist hheight).set (.bool true) hnote).set (.string "c1") happ

namespace Index

theorem build_nil : build [] = .ok rootIndex := by decide +kernel

theorem headerFree_rootIndex : rootIndex.HeaderFree := by
  intro d hd header
  obtain rfl := List.mem_singleton.1 hd
  exact List.not_mem_nil

theorem headerFree_beamIndex : beamIndex.HeaderFree := by
  intro d hd header
  rcases List.mem_pair.1 hd with rfl | rfl
  · exact List.not_mem_nil
  · cases header <;> decide

/-- A column is read where columns are not known. -/
theorem materialize_plainColumn :
    build [] = .ok rootIndex ∧ rootIndex.HeaderFree ∧ columnIndex.HeaderFree ∧
      Descriptor.sampleColumn ∈ columnIndex.descriptors ∧
      Descriptor.sampleColumn.instantiate.PlainlyWritten Node.plainColumn ∧
      ∃ handle m, rootIndex.materialize Node.plainColumn.toDocument = .ok (.node handle m) ∧
        m.typeName = "Kit.Column" ∧ m.applicationId = some "c1" ∧
        m.get? "height" = some (.list [.int 3, .list [.null, .string "m"]]) := by
  have hd : Descriptor.sampleColumn ∈ columnIndex.descriptors := by decide
  obtain ⟨hread, -, hcontent⟩ :=
    materialize_elsewhere build_nil headerFree_rootIndex headerFree_columnIndex hd
      Node.plainlyWritten_plainColumn
  have hvalid : ∀ name ∈ Entries.keys Descriptor.sampleColumn.properties,
      Name.validate name = .ok () := by
    decide
  obtain ⟨v, hv⟩ := hread.1 fun name hname => .inl (hvalid name hname)
  obtain ⟨handle, m, rfl, htype, -, happ, hmembers⟩ := hcontent v hv
  refine ⟨build_nil, headerFree_rootIndex, headerFree_columnIndex, hd,
    Node.plainlyWritten_plainColumn, handle, m, hv, htype, happ, ?_⟩
  exact hmembers "height" (by decide)

/-- A beam is not read where beams are not known, even if nothing was ever written to it: its member
has a name that is declared in one index and not valid in the other. -/
theorem materialize_unknown_beam :
    build Module.beamKit = .ok beamIndex ∧ beamIndex.HeaderFree ∧ build [] = .ok rootIndex ∧
      rootIndex.HeaderFree ∧
      rootIndex.materialize Descriptor.sampleBeam.instantiate.toDocument =
        .error (.invalidCharacter "size.x" '.') ∧
      ¬ ∀ d ∈ beamIndex.descriptors, ∀ n, d.instantiate.PlainlyWritten n →
        ∃ v, rootIndex.materialize n.toDocument = .ok v := by
  have hrefused : rootIndex.materialize Descriptor.sampleBeam.instantiate.toDocument =
      .error (.invalidCharacter "size.x" '.') := rfl
  refine ⟨by decide +kernel, headerFree_beamIndex, build_nil, headerFree_rootIndex, hrefused, ?_⟩
  intro h
  obtain ⟨v, hv⟩ := h Descriptor.sampleBeam (by decide) _ .start
  rw [hrefused] at hv
  cases hv

end Index

end ObjectGraph
