import ObjectGraph.Proofs.Materialize.Fill
import ObjectGraph.Proofs.Value.Alike

/-!
# Values that come back from their documents

A value whose nodes suit the index is read back from its document with the same content
(`Index.materialize_toDocument`). A node suits the index when it comes about by the operations on
nodes and its declared members are those of the type that its type chain resolves to
(`Index.Suits`); then the empty node that reading starts from declares the same names, and every
write of an entry is accepted.
-/

namespace ObjectGraph

theorem Value.ofString?_injective : Function.Injective Value.ofString? := by
  intro a b h
  cases a <;> cases b <;> cases h <;> rfl

namespace Index

/-- The values that an index reads back. All floats are finite, no map has a text where a node has
its type chain, and of every node the declared members are those of the type that its chain resolves
to. -/
inductive Suits (index : Index) : Value → Prop
  | null : Suits index .null
  | bool (b : Bool) : Suits index (.bool b)
  | int (n : Int64) : Suits index (.int n)
  | float {x : Binary64} (finite : x.isFinite = true) : Suits index (.float x)
  | string (s : String) : Suits index (.string s)
  | list {items : List Value} (hitems : ∀ item ∈ items, Suits index item) :
      Suits index (.list items)
  | map {entries : List (String × Value)} (hkeys : (Entries.keys entries).Nodup)
      (huntyped : ∀ s, Entries.get? Header.typeName.name entries ≠ some (.string s))
      (hvalues : ∀ entry ∈ entries, Suits index entry.2) : Suits index (.map entries)
  | node {handle : Handle} {n : Node} (hreachable : n.Reachable)
      (hdeclared : ∀ name, name ∈ Entries.keys n.declared ↔
        name ∈ Entries.keys (index.resolve n.typeName).properties)
      (hmembers : ∀ member ∈ n.members .all, Suits index member.2) : Suits index (.node handle n)

variable {index : Index}

/-- The document of a value is read, at every place, as a value with the same content. -/
def ReadsBack (index : Index) (v : Value) : Prop :=
  ∀ place, ∃ w, index.materializeAt place v.toDocument = .ok w ∧ v.Alike w

/-- Whatever is read from the document of such a value is alike the value. -/
theorem ReadsBack.alike {v w : Value} (h : index.ReadsBack v)
    (hw : index.Materializes v.toDocument w) : v.Alike w := by
  obtain ⟨place, hw⟩ := hw
  obtain ⟨w', hw', halike⟩ := h place
  rw [hw'] at hw
  cases hw
  exact halike

theorem ReadsBack.exists_value {v : Value} (h : index.ReadsBack v) (place : List Nat) :
    ∃ w, index.materializeAt place v.toDocument = .ok w := by
  obtain ⟨w, hw, -⟩ := h place
  exact ⟨w, hw⟩

theorem readsBack_int (n : Int64) : index.ReadsBack (.int n) := by
  intro place
  refine ⟨.int n, ?_, .int n⟩
  have hlt : n.toInt < integerBound := Int64.toInt_lt n
  rw [Value.toDocument, Document.ofInt64, materializeAt, Value.ofInteger, if_pos hlt,
    Int64.ofInt_toInt]

/-- A list reads back if its elements do. -/
theorem readsBack_list {items : List Value} (h : ∀ item ∈ items, index.ReadsBack item) :
    index.ReadsBack (.list items) := by
  intro place
  have hdocuments : ∀ d ∈ itemDocuments items, ∀ place,
      ∃ w, index.materializeAt place d = .ok w := by
    intro d hd
    rw [itemDocuments_eq_map, List.mem_map] at hd
    obtain ⟨item, hitem, rfl⟩ := hd
    exact (h item hitem).exists_value
  obtain ⟨values, hvalues⟩ := exists_materializeItems hdocuments place 0
  refine ⟨.list values, by rw [Value.toDocument, materializeAt, hvalues]; rfl, ?_⟩
  have hall := materializeItems_eq_ok hvalues
  rw [itemDocuments_eq_map, List.forall₂_map_left_iff] at hall
  refine .list hall.length_eq ?_
  intro i hx hy
  exact (h _ (List.getElem_mem hx)).alike (hall.get hx hy)

/-- Only a text has a text as its document. -/
theorem asString?_toDocument (v : Value) : v.toDocument.asString? = v.asString? := by
  cases v with
  | node handle n =>
      rw [Value.toDocument, Node.toDocument_eq]
      rfl
  | float x =>
      rw [Value.toDocument, Document.ofFloat]
      split <;> rfl
  | _ => rfl

/-- The document of a map has under each key the document of the value there. -/
theorem get?_sorted_entryDocuments {entries : List (String × Value)}
    (hkeys : (Entries.keys entries).Nodup) (k : String) :
    Entries.get? k (Entries.sorted (entryDocuments entries)) =
      (Entries.get? k entries).map Value.toDocument := by
  rw [Entries.get?_sorted_of_nodup (by rwa [keys_entryDocuments]), get?_entryDocuments]

/-- The document of a map has no type chain if the map has no text there. -/
theorem typeChain?_sorted {entries : List (String × Value)} (hkeys : (Entries.keys entries).Nodup)
    (huntyped : ∀ s, Entries.get? Header.typeName.name entries ≠ some (.string s)) :
    Document.typeChain? (Entries.sorted (entryDocuments entries)) = none := by
  rw [Document.typeChain?, get?_sorted_entryDocuments hkeys]
  cases htype : Entries.get? Header.typeName.name entries with
  | none => rfl
  | some v =>
      rw [Option.map_some, Option.bind_some, asString?_toDocument]
      cases v with
      | string s => exact absurd htype (huntyped s)
      | _ => rfl

/-- A map reads back if its values do and it does not look like a node. -/
theorem readsBack_map {entries : List (String × Value)} (hkeys : (Entries.keys entries).Nodup)
    (huntyped : ∀ s, Entries.get? Header.typeName.name entries ≠ some (.string s))
    (h : ∀ entry ∈ entries, index.ReadsBack entry.2) : index.ReadsBack (.map entries) := by
  intro place
  have hget := get?_sorted_entryDocuments hkeys
  have hchain := typeChain?_sorted hkeys huntyped
  have hdocuments : ∀ entry ∈ Entries.sorted (entryDocuments entries), ∀ place, ∃ w,
      index.materializeAt place entry.2 = .ok w := by
    intro entry hentry
    have hmem := Entries.mem_of_mem_sorted hentry
    rw [entryDocuments_eq_map, List.mem_map] at hmem
    obtain ⟨source, hsource, rfl⟩ := hmem
    exact (h source hsource).exists_value
  obtain ⟨values, hvalues⟩ := exists_materializeEntries hdocuments place 0
  refine ⟨.map values, ?_, ?_⟩
  · rw [Value.toDocument, Document.ofEntries, materializeAt, hchain]
    dsimp only
    rw [hvalues]
    rfl
  · have hall := materializeEntries_eq_ok hvalues
    have hsame := Entries.keys_of_forall₂ hall
    refine .map (.of_mem_iff hkeys ?_ ?_) ?_
    · rw [← hsame]
      exact (Entries.increasing_sorted _).nodup_keys
    · intro k
      rw [← hsame, Entries.mem_keys_iff_exists_get?, Entries.mem_keys_iff_exists_get?, hget]
      simp
    · intro k v w hv hw
      have hrel := Entries.get?_of_forall₂ hall k
      rw [hget, hv, hw] at hrel
      cases hrel with
      | some hmaterializes => exact (h (k, v) (Entries.mem_of_get? hv)).alike hmaterializes

/-! ## Nodes -/

theorem isSome_eq_of_rel {α β : Type} {R : α → β → Prop} {a : Option α} {b : Option β}
    (h : Option.Rel R a b) : a.isSome = b.isSome := by
  cases h with
  | none => rfl
  | some _ => rfl

/-- A header field other than the type chain is read as it was. -/
theorem materializeAt_header (n : Node) {header : Header} (hne : header ≠ .typeName)
    (place : List Nat) :
    index.materializeAt place (n.header header).toDocument = .ok (n.header header) := by
  cases header with
  | typeName => exact absurd rfl hne
  | id =>
      rw [Node.header]
      cases n.id <;> rfl
  | applicationId =>
      rw [Node.header]
      cases n.applicationId <;> rfl

section Node

variable {n m : Node} {entries : List (String × Document)}

/-- The document of a node has the node's type chain. -/
theorem exists_typeChain? (hn : n.WellFormed) (hfree : n.HeaderFree) :
    ∃ entries, n.toDocument = .object entries ∧ Entries.Increasing entries ∧
      (∀ name, Entries.get? name entries = n.documentAt? name) ∧
      Document.typeChain? entries = some n.typeName := by
  obtain ⟨entries, hdocument, hincreasing, hget⟩ := Node.exists_toDocument_eq hn hfree
  refine ⟨entries, hdocument, hincreasing, hget, ?_⟩
  rw [Document.typeChain?, hget]
  rfl

/-- Reading the document of a node fills the empty node of its type with the entries of the
document. -/
theorem exists_materializeAt_node (index : Index) (hn : n.WellFormed) (hfree : n.HeaderFree) :
    ∃ entries, (Entries.keys entries).Nodup ∧
      (∀ name, Entries.get? name entries = n.documentAt? name) ∧
      ∀ place, index.materializeAt place n.toDocument =
        (index.fill place 0 entries (index.instantiateAs n.typeName)).map (Value.node ⟨place⟩) := by
  obtain ⟨entries, hdocument, hincreasing, hget, hchain⟩ := exists_typeChain? hn hfree
  refine ⟨entries, hincreasing.nodup_keys, hget, ?_⟩
  intro place
  rw [hdocument, materializeAt, hchain]
  dsimp only
  cases index.fill place 0 entries (index.instantiateAs n.typeName) <;> rfl

/-- What stands in the document of a node is read at every place: under the name of a header field a
value that the field takes, under any other name the value of a member. -/
theorem exists_value_of_documentAt? {name : String} {d : Document}
    (hread : n.documentAt? name = some d) (hname : name ≠ Header.typeName.name)
    (h : ∀ member ∈ n.members .all, index.ReadsBack member.2) (place : List Nat) :
    ∃ v, index.materializeAt place d = .ok v ∧
      ((∃ header, Header.ofName? name = some header ∧ header.Takes v) ∨
        (Header.ofName? name = none ∧ ∃ w, n.get? name = some w)) := by
  rw [Node.documentAt?] at hread
  cases hheader : Header.ofName? name with
  | some header =>
      rw [hheader] at hread
      dsimp only at hread
      split at hread
      · cases hread
      · obtain rfl := Header.name_of_ofName? hheader
        have hne : header ≠ .typeName := by
          rintro rfl
          exact hname rfl
        cases Option.some.inj hread
        exact ⟨n.header header, materializeAt_header n hne place,
          .inl ⟨header, rfl, n.takes_header header⟩⟩
  | none =>
      rw [hheader] at hread
      obtain ⟨v, hv, rfl⟩ := Option.map_eq_some_iff.1 hread
      obtain ⟨w, hw⟩ := (h _ (Node.mem_members_of_get? hheader hv)).exists_value place
      exact ⟨w, hw, .inr ⟨rfl, v, hv⟩⟩

/-- The empty node of a node's type declares what the node declares, so it accepts the entries of
the node's document. -/
theorem exists_fill_toDocument (hn : n.WellFormed)
    (hdeclared : ∀ name, name ∈ Entries.keys n.declared ↔
      name ∈ Entries.keys (index.resolve n.typeName).properties)
    (hentries : (Entries.keys entries).Nodup)
    (hget : ∀ name, Entries.get? name entries = n.documentAt? name)
    (h : ∀ member ∈ n.members .all, index.ReadsBack member.2) (place : List Nat) :
    ∃ m, index.fill place 0 entries (index.instantiateAs n.typeName) = .ok m := by
  apply exists_fill
  rintro ⟨name, d⟩ hentry hname place
  have hread := (hget name).symm.trans (Entries.get?_of_mem hentries hentry)
  obtain ⟨v, hv, hkind⟩ := exists_value_of_documentAt? hread hname h place
  refine ⟨v, hv, ?_⟩
  rcases hkind with ⟨header, hheader, htakes⟩ | ⟨hplain, hmember⟩
  · rw [Node.Accepts, hheader]
    exact htakes
  · rw [Node.Accepts, hplain]
    by_cases hmem : name ∈ Entries.keys n.declared
    · exact .inl (mem_declared_instantiateAs.2 ((hdeclared name).1 hmem))
    · exact .inr (hn.valid name (hn.mem_dynamic_iff.2 ⟨hplain, hmem, hmember⟩))

/-- The header fields other than the type chain are read back. -/
theorem header_filled (hget : ∀ name, Entries.get? name entries = n.documentAt? name)
    (hm : index.Filled entries (index.instantiateAs n.typeName) m) {header : Header}
    (hne : header ≠ .typeName) : m.header header = n.header header := by
  have hread := hget header.name
  rw [Node.documentAt?, Header.ofName?_name] at hread
  dsimp only at hread
  split at hread
  · rename_i hnull
    rw [hm.header_of_none hne hread]
    cases hv : n.header header with
    | null => rfl
    | _ => rw [hv] at hnull; cases hnull
  · obtain ⟨place, hmaterializes⟩ := hm.header_of_some hne hread
    rw [materializeAt_header n hne] at hmaterializes
    exact (Except.ok.inj hmaterializes).symm

/-- The members are read back, each under its name. -/
theorem get?_filled (hdeclared : ∀ name, name ∈ Entries.keys n.declared ↔
      name ∈ Entries.keys (index.resolve n.typeName).properties)
    (hget : ∀ name, Entries.get? name entries = n.documentAt? name)
    (hm : index.Filled entries (index.instantiateAs n.typeName) m)
    (h : ∀ member ∈ n.members .all, index.ReadsBack member.2) {name : String}
    (hplain : Header.ofName? name = none) : Option.Rel Value.Alike (n.get? name) (m.get? name) := by
  have hread := hget name
  rw [Node.documentAt?, hplain] at hread
  dsimp only at hread
  cases hv : n.get? name with
  | none =>
      rw [hv] at hread
      have hnot : name ∉ Entries.keys (index.resolve n.typeName).properties := by
        rw [← hdeclared, ← Entries.get?_eq_none_iff]
        rw [Node.get?_of_plain hplain] at hv
        exact (Option.or_eq_none_iff.1 hv).1
      -- A member that was not there is not added, for the type does not declare it.
      rw [hm.get?_of_none hplain hread, if_neg hnot]
      exact .none
  | some v =>
      rw [hv] at hread
      obtain ⟨w, hw, hmget⟩ := hm.get?_of_some hplain hread
      rw [hmget]
      exact .some ((h _ (Node.mem_members_of_get? hplain hv)).alike hw)

/-- The node that is read has the header fields of the node that was written, and alike members on
the same sides. -/
theorem alike_filled (hn : n.WellFormed)
    (hfree : ∀ header : Header, header.name ∉ Entries.keys (index.resolve n.typeName).properties)
    (hdeclared : ∀ name, name ∈ Entries.keys n.declared ↔
      name ∈ Entries.keys (index.resolve n.typeName).properties)
    (hget : ∀ name, Entries.get? name entries = n.documentAt? name)
    (hm : index.Filled entries (index.instantiateAs n.typeName) m)
    (h : ∀ member ∈ n.members .all, index.ReadsBack member.2) (handle place : Handle) :
    Value.Alike (.node handle n) (.node place m) := by
  have hsame : ∀ name, name ∈ Entries.keys n.declared ↔ name ∈ Entries.keys m.declared :=
    fun name => (hdeclared name).trans hm.mem_declared_iff.symm
  have hread : ∀ name, Header.ofName? name = none →
      Option.Rel Value.Alike (n.get? name) (m.get? name) :=
    fun name hplain => get?_filled hdeclared hget hm h hplain
  have hheaders : n.HeaderFree := fun header hmem => hfree header ((hdeclared _).1 hmem)
  have hheader : ∀ header, header ≠ .typeName → n.header header = m.header header :=
    fun header hne => (header_filled hget hm hne).symm
  refine .node hm.typeName_eq.symm ?_ ?_ ?_ ?_ ?_ ?_
  · exact Value.ofString?_injective (hheader .id nofun)
  · exact Value.ofString?_injective (hheader .applicationId nofun)
  · exact .of_mem_iff hn.declared hm.wellFormed.declared hsame
  · apply Entries.SameKeys.of_mem_iff hn.dynamic hm.wellFormed.dynamic
    intro name
    rw [hn.mem_dynamic_iff, hm.wellFormed.mem_dynamic_iff, hsame]
    refine and_congr_right fun hname => and_congr_right fun _ => ?_
    rw [← Option.isSome_iff_exists, ← Option.isSome_iff_exists, isSome_eq_of_rel (hread name hname)]
  · intro name v w hv hw
    have hmem : name ∈ Entries.keys n.declared := Entries.mem_keys_iff_exists_get?.2 ⟨v, hv⟩
    have hname := hheaders.plain hmem
    rw [Node.get?_declared_of_mem hname hmem] at hv
    rw [Node.get?_declared_of_mem hname ((hsame name).1 hmem)] at hw
    have hrel := hread name hname
    rwa [hv, hw, Option.rel_some_some] at hrel
  · intro name v w hv hw
    obtain ⟨hname, hnot, -⟩ := hn.mem_dynamic_iff.1 (Entries.mem_keys_iff_exists_get?.2 ⟨v, hv⟩)
    rw [Node.get?_dynamic_of_not_mem hname hnot] at hv
    rw [Node.get?_dynamic_of_not_mem hname fun hmem => hnot ((hsame name).2 hmem)] at hw
    have hrel := hread name hname
    rwa [hv, hw, Option.rel_some_some] at hrel

/-- A node reads back if its members do and it declares what its type declares for the reader. -/
theorem readsBack_node {handle : Handle} (hn : n.WellFormed)
    (hfree : ∀ header : Header, header.name ∉ Entries.keys (index.resolve n.typeName).properties)
    (hdeclared : ∀ name, name ∈ Entries.keys n.declared ↔
      name ∈ Entries.keys (index.resolve n.typeName).properties)
    (h : ∀ member ∈ n.members .all, index.ReadsBack member.2) :
    index.ReadsBack (.node handle n) := by
  intro place
  have hheaders : n.HeaderFree := fun header hmem => hfree header ((hdeclared _).1 hmem)
  obtain ⟨entries, hentries, hget, hread⟩ := exists_materializeAt_node index hn hheaders
  obtain ⟨m, hfill⟩ := exists_fill_toDocument hn hdeclared hentries hget h place
  refine ⟨.node ⟨place⟩ m, ?_,
    alike_filled hn hfree hdeclared hget (fill_eq_ok hentries hfill) h _ _⟩
  rw [Value.toDocument, hread, hfill]
  rfl

end Node

/-- A value that suits the index is read back, at every place. -/
theorem Suits.readsBack {modules : List Module} (hbuilt : IsBuilt modules index)
    (hfree : index.HeaderFree) {v : Value} (hv : index.Suits v) : index.ReadsBack v := by
  induction hv with
  | null => exact fun _ => ⟨.null, rfl, .null⟩
  | bool b => exact fun _ => ⟨.bool b, rfl, .bool b⟩
  | int n => exact readsBack_int n
  | @float x finite =>
      intro place
      refine ⟨.float x, ?_, .float finite⟩
      rw [Value.toDocument, Document.ofFloat, dif_pos finite]
      rfl
  | string s => exact fun _ => ⟨.string s, rfl, .string s⟩
  | list _ ih => exact readsBack_list ih
  | map hkeys huntyped _ ih => exact readsBack_map hkeys huntyped ih
  | node hreachable hdeclared _ ih =>
      exact readsBack_node hreachable.wellFormed (hfree _ (hbuilt.mem_resolve _)) hdeclared ih

/-- A value that suits the index is read back from its document as an equal value, with the same
header fields and with the same members on the same sides in all its nodes. -/
theorem materialize_toDocument {modules : List Module} (hbuild : build modules = .ok index)
    (hfree : index.HeaderFree) {v : Value} (hv : index.Suits v) :
    ∃ w, index.materialize v.toDocument = .ok w ∧ v.equals w = true ∧ v.Alike w := by
  obtain ⟨w, hw, halike⟩ := hv.readsBack (isBuilt_of_build hbuild) hfree []
  exact ⟨w, hw, halike.equals_eq_true, halike⟩

end Index

/-- A node of a type that the index does not know. -/
def Node.samplePanel : Node where
  typeName := "Kit.Panel"
  id := some "p1"
  applicationId := none
  declared := []
  dynamic := [("weight", .int 12)]

/-- The panel and a map. -/
def Value.sampleParts : Value :=
  .list [.node ⟨[7]⟩ Node.samplePanel, .map [("id", .null)]]

/-- A column with parts and a note. The declared members stand in another order than in the type. -/
def Node.sampleColumn : Node where
  typeName := "Kit.Column"
  id := none
  applicationId := some "c1"
  declared := [("@parts", Value.sampleParts), ("height", .null)]
  dynamic := [("note", .float ⟨0x400C000000000000⟩)]

theorem Node.reachable_samplePanel : samplePanel.Reachable := by
  have hset : (Node.new "Kit.Panel").set "weight" (.int 12) =
      .ok (none, { Node.new "Kit.Panel" with dynamic := [("weight", .int 12)] }) := rfl
  exact ((Reachable.new "Kit.Panel").set hset).setId (some "p1")

theorem Node.reachable_sampleColumn : sampleColumn.Reachable := by
  have hparts : (withMembers "Kit.Column" ["@parts", "height"]).set "@parts" Value.sampleParts =
      .ok (some .null, { sampleColumn with applicationId := none, dynamic := [] }) := rfl
  have hnote : ({ sampleColumn with applicationId := none, dynamic := [] } : Node).set "note"
      (.float ⟨0x400C000000000000⟩) = .ok (none, { sampleColumn with applicationId := none }) := rfl
  exact (((reachable_withMembers _ _).set hparts).set hnote).setApplicationId (some "c1")

namespace Index

theorem suits_samplePanel (handle : Handle) :
    columnIndex.Suits (.node handle Node.samplePanel) := by
  have hkeys : Entries.keys Node.samplePanel.declared =
      Entries.keys (columnIndex.resolve "Kit.Panel").properties := by decide +kernel
  refine .node Node.reachable_samplePanel (fun name => by rw [hkeys]; rfl) ?_
  rintro member (_ | ⟨_, ⟨⟩⟩)
  exact .int 12

/-- The column suits the index of columns. -/
theorem suits_sampleColumn (handle : Handle) :
    columnIndex.Suits (.node handle Node.sampleColumn) := by
  have hkeys : ∀ name, name ∈ Entries.keys Node.sampleColumn.declared ↔
      name ∈ Entries.keys (columnIndex.resolve "Kit.Column").properties := by
    have hperm : (Entries.keys Node.sampleColumn.declared).Perm
        (Entries.keys (columnIndex.resolve "Kit.Column").properties) := by decide +kernel
    exact fun name => hperm.mem_iff
  have hparts : columnIndex.Suits Value.sampleParts := by
    refine .list ?_
    rintro item (_ | ⟨_, _ | ⟨_, ⟨⟩⟩⟩)
    · exact suits_samplePanel _
    · refine .map (by decide) (fun s => nofun) ?_
      rintro entry (_ | ⟨_, ⟨⟩⟩)
      exact .null
  refine .node Node.reachable_sampleColumn hkeys ?_
  rintro member (_ | ⟨_, _ | ⟨_, _ | ⟨_, ⟨⟩⟩⟩⟩)
  · exact hparts
  · exact .null
  · exact .float rfl

/-- The column is written and read again, with a panel inside that the index does not know. -/
theorem materialize_toDocument_sampleColumn :
    build Module.columnKit = .ok columnIndex ∧ columnIndex.HeaderFree ∧
      columnIndex.Suits (.node ⟨[1]⟩ Node.sampleColumn) ∧
      ∃ w, columnIndex.materialize Node.sampleColumn.toDocument = .ok w ∧
        Value.equals (.node ⟨[1]⟩ Node.sampleColumn) w = true ∧
        Value.Alike (.node ⟨[1]⟩ Node.sampleColumn) w :=
  ⟨build_columnKit, headerFree_columnIndex, suits_sampleColumn _,
    materialize_toDocument build_columnKit headerFree_columnIndex (suits_sampleColumn _)⟩

end Index

end ObjectGraph
