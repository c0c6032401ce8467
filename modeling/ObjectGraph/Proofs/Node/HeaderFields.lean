import ObjectGraph.Proofs.Identity.Injectivity
import ObjectGraph.Proofs.Node.Rendering

/-!
# Header fields in the renderings

Under the name of a header field, both the document and the content of a node have the declared
member of that name, or the header field if no member of the name is declared
(`Node.rendered_header`). So a type that declares no header names never hides a field, and two nodes
that differ in a field that counts have different canonical bytes. A type that does declare one
hides the field behind its member (`Node.rendered_header_hidden`), while reading the node still
gives the field.
-/

namespace ObjectGraph

namespace Document

theorem SameTree.string_inj {s t : String} (h : SameTree (.string s) (.string t)) : s = t := by
  cases h with
  | string => rfl
  | number hd => cases hd

/-- The documents of two texts that may be missing are the same only if the texts are. -/
theorem SameTree.ofString?_inj {a b : Option String}
    (h : SameTree (Value.ofString? a).toDocument (Value.ofString? b).toDocument) : a = b := by
  cases a with
  | none =>
      cases b with
      | none => rfl
      | some t =>
          cases h with
          | number hd => cases hd
  | some s =>
      cases b with
      | none =>
          cases h with
          | number hd => cases hd
      | some t => rw [string_inj h]

end Document

namespace Node

variable {n m : Node} {header : Header}

/-- Header fields with the same document are the same. -/
theorem header_eq_of_sameTree
    (h : (n.header header).toDocument.SameTree (m.header header).toDocument) :
    n.header header = m.header header := by
  cases header with
  | typeName => exact congrArg Value.string (Document.SameTree.string_inj h)
  | id => exact congrArg Value.ofString? (Document.SameTree.ofString?_inj h)
  | applicationId => exact congrArg Value.ofString? (Document.SameTree.ofString?_inj h)

/-- The header fields other than the id belong to the content. -/
theorem isHashed_header (h : header ≠ .id) : Name.isHashed header.name = true := by
  cases header with
  | id => exact absurd rfl h
  | typeName | applicationId => decide

theorem get?_contentHeader (n : Node) (h : header ≠ .id) :
    Entries.get? header.name (Entries.sorted (contentHeader n.typeName n.applicationId)) =
      some (n.header header).toDocument := by
  have hnodup : (Entries.keys (contentHeader n.typeName n.applicationId)).Nodup := by
    change ["speckle_type", "applicationId"].Nodup
    decide
  rw [Entries.get?_sorted_of_nodup hnodup]
  cases header with
  | id => exact absurd rfl h
  | typeName => rfl
  | applicationId =>
      rw [contentHeader, Entries.get?_cons, if_neg (by decide), Entries.get?_cons, if_pos rfl,
        Node.header]
      cases n.applicationId <;> rfl

/-- Of the members that belong to the content, those with the name of a header field are declared
ones. -/
theorem WellFormed.valuesAt_hashedMembers (hn : n.WellFormed) (h : header ≠ .id) :
    Entries.valuesAt header.name n.hashedMembers =
      (Entries.get? header.name n.declared).toList := by
  rw [hashedMembers, members, Entries.valuesAt_filter, if_pos (isHashed_header h),
    Entries.valuesAt_append, Entries.valuesAt_of_nodup hn.declared,
    Entries.valuesAt_of_nodup hn.dynamic,
    hn.get?_dynamic_header header, Option.toList_none, List.append_nil]

/-- What the content of a node has under the name of a header field other than the id. -/
theorem exists_canonicalTree_header (hn : n.WellFormed) {tree : Document}
    (htree : n.canonicalTree = .ok tree) :
    ∃ entries, tree = .object entries ∧ ∀ header : Header, header ≠ .id →
      (Entries.get? header.name n.declared = none →
        Entries.get? header.name entries = some (n.header header).toDocument) ∧
      ∀ v, Entries.get? header.name n.declared = some v →
        ∃ d, v.canonicalTree header.name = .ok d ∧ Entries.get? header.name entries = some d := by
  rw [canonicalTree_eq, bind_pure_eq_ok_iff] at htree
  obtain ⟨es, hes, rfl⟩ := htree
  refine ⟨_, rfl, ?_⟩
  intro header hheader
  -- The members under this name decide, and the content's header is left if there are none.
  have hvalues := canonicalEntries_valuesAt hes header.name
  rw [hn.valuesAt_hashedMembers hheader] at hvalues
  rw [Entries.get?_sorted_append, Entries.get?_sorted, get?_contentHeader n hheader]
  constructor
  · intro hnone
    rw [hnone, Option.toList_none, canonicalItems] at hvalues
    rw [← Except.ok.inj hvalues]
    rfl
  · intro v hsome
    rw [hsome, Option.toList_some, canonicalItems_cons_eq_ok_iff] at hvalues
    obtain ⟨d, others, hd, hothers, heq⟩ := hvalues
    rw [canonicalItems] at hothers
    cases hothers
    exact ⟨d, hd, by rw [heq]; rfl⟩

/-- Two nodes that differ in a header field have different contents, if neither declares a member of
its name. -/
theorem not_sameTree_of_header_ne (hn : n.WellFormed) (hm : m.WellFormed) (hheader : header ≠ .id)
    (hfree : header.name ∉ Entries.keys n.declared) (hfree' : header.name ∉ Entries.keys m.declared)
    (hne : n.header header ≠ m.header header) {d e : Document} (hd : n.canonicalTree = .ok d)
    (he : m.canonicalTree = .ok e) : ¬ d.SameTree e := by
  obtain ⟨es, rfl, hes⟩ := exists_canonicalTree_header hn hd
  obtain ⟨fs, rfl, hfs⟩ := exists_canonicalTree_header hm he
  intro hsame
  cases hsame with
  | number hkind => cases hkind
  | object _ hvalues =>
      have hget := (hes header hheader).1 (Entries.get?_eq_none_iff.2 hfree)
      have hget' := (hfs header hheader).1 (Entries.get?_eq_none_iff.2 hfree')
      exact hne (header_eq_of_sameTree (hvalues _ _ _ hget hget'))

/-- Under the name of a header field, the document of a node has the declared member of that name,
or else the field, unless this is null. The content has the same under the names of the type chain
and the application id, and a null field too. So two nodes that differ in one of these two fields
have different canonical bytes, if neither declares a member of the field's name. -/
theorem rendered_header (hn : n.Reachable) :
    (∃ entries, n.toDocument = .object entries ∧ ∀ header : Header,
      (header.name ∉ Entries.keys n.declared → Entries.get? header.name entries =
        if (n.header header).isNull then none else some (n.header header).toDocument) ∧
      ∀ v, Entries.get? header.name n.declared = some v →
        Entries.get? header.name entries = some v.toDocument) ∧
    (∀ tree, n.canonicalTree = .ok tree → ∃ entries, tree = .object entries ∧
      ∀ header : Header, header ≠ .id →
        (header.name ∉ Entries.keys n.declared →
          Entries.get? header.name entries = some (n.header header).toDocument) ∧
        ∀ v, Entries.get? header.name n.declared = some v →
          ∃ d, v.canonicalTree header.name = .ok d ∧ Entries.get? header.name entries = some d) ∧
    ∀ m : Node, m.Reachable → ∀ header : Header, header ≠ .id →
      header.name ∉ Entries.keys n.declared →
      header.name ∉ Entries.keys m.declared → n.header header ≠ m.header header →
        ∀ s t, n.canonicalText = .ok s → m.canonicalText = .ok t → s.toUTF8 ≠ t.toUTF8 := by
  refine ⟨?_, ?_, ?_⟩
  · obtain ⟨entries, hdocument, -, hget⟩ := exists_toDocument_members hn.wellFormed
    refine ⟨entries, hdocument, ?_⟩
    intro header
    rw [hget, hn.wellFormed.get?_dynamic_header header, Option.or_none, get?_headerEntries,
      Header.ofName?_name, Option.bind_some]
    constructor
    · intro hfree
      rw [Entries.get?_eq_none_iff.2 hfree, Option.map_none, Option.none_or]
    · intro v hv
      rw [hv, Option.map_some, Option.some_or]
  · intro tree htree
    obtain ⟨entries, hobject, hget⟩ := exists_canonicalTree_header hn.wellFormed htree
    refine ⟨entries, hobject, ?_⟩
    intro header hheader
    rw [← Entries.get?_eq_none_iff]
    exact hget header hheader
  · intro m hm header hheader hfree hfree' hne s t hs ht hbytes
    obtain ⟨d, hd, rfl⟩ := map_eq_ok_iff.1 hs
    obtain ⟨e, he, rfl⟩ := map_eq_ok_iff.1 ht
    rw [String.toUTF8_eq_toByteArray, String.toUTF8_eq_toByteArray,
      String.toByteArray_inj] at hbytes
    apply not_sameTree_of_header_ne hn.wellFormed hm.wellFormed hheader hfree hfree' hne hd he
    exact Document.sameTree_of_written_eq (ordered_canonicalTree n hd)
      (ordered_canonicalTree m he) hbytes

/-- A door that declares a member with the name of the id. -/
def sampleDoor : Node :=
  { withMembers "Kit.Door" ["id"] with id := some "d1", applicationId := some "a1" }

/-- A door without an application id. -/
def samplePlainDoor : Node :=
  new "Kit.Door"

/-- The declared member hides the id and no other field. -/
theorem rendered_header_sampleDoor :
    sampleDoor.Reachable ∧
      (∃ entries, sampleDoor.toDocument = .object entries ∧
        Entries.get? "speckle_type" entries = some (.string "Kit.Door") ∧
        Entries.get? "applicationId" entries = some (.string "a1") ∧
        Entries.get? "id" entries = some .null) ∧
      ∀ s t, sampleDoor.canonicalText = .ok s → samplePlainDoor.canonicalText = .ok t →
        s.toUTF8 ≠ t.toUTF8 := by
  have hreachable : sampleDoor.Reachable :=
    ((reachable_withMembers "Kit.Door" ["id"]).setId (some "d1")).setApplicationId (some "a1")
  obtain ⟨⟨entries, hdocument, hget⟩, -, hbytes⟩ := rendered_header hreachable
  refine ⟨hreachable, ⟨entries, hdocument, ?_, ?_, ?_⟩, ?_⟩
  · exact (hget .typeName).1 (by decide)
  · exact (hget .applicationId).1 (by decide)
  · exact (hget .id).2 .null rfl
  · exact hbytes samplePlainDoor (.new "Kit.Door") .applicationId nofun (by decide)
      (by decide) nofun

/-- A door and a gate that declare a member with the name of the type chain. -/
def hiddenDoor : Node :=
  withMembers "Kit.Door" ["speckle_type"]

/-- The gate of that pair. -/
def hiddenGate : Node :=
  withMembers "Kit.Gate" ["speckle_type"]

/-- The declared member hides the type chain, in the document and in the content, so nodes of
different types have the same canonical text. -/
theorem rendered_header_hidden :
    hiddenDoor.Reachable ∧ hiddenGate.Reachable ∧ hiddenDoor.typeName ≠ hiddenGate.typeName ∧
      (¬ ∃ entries, hiddenDoor.toDocument = .object entries ∧
        Entries.get? "speckle_type" entries = some (.string hiddenDoor.typeName)) ∧
      ∃ s, hiddenDoor.canonicalText = .ok s ∧ hiddenGate.canonicalText = .ok s := by
  refine ⟨reachable_withMembers _ _, reachable_withMembers _ _, by decide, ?_, ?_⟩
  · rintro ⟨entries, hdocument, hget⟩
    have hnull : hiddenDoor.toDocument = .object [("speckle_type", .null)] := by rfl
    rw [hnull] at hdocument
    cases hdocument
    cases hget
  · exact ⟨"\x7b\"applicationId\":null,\"speckle_type\":null\x7d", by rfl, by rfl⟩

end Node

end ObjectGraph
