import Mathlib.Logic.Function.Basic
import ObjectGraph.Node.Identity
import ObjectGraph.Proofs.Node.Reachable

/-!
# What stands in the document of a node

The document of a well-formed node has one entry for every member and every header field that is not
null, as long as no declared member has the name of a header field: `Node.exists_toDocument_eq`
gives its entries name by name.
-/

namespace ObjectGraph

theorem itemDocuments_eq_map (items : List Value) :
    itemDocuments items = items.map Value.toDocument := by
  induction items with
  | nil => rfl
  | cons v rest ih => rw [itemDocuments, ih, List.map_cons]

theorem entryDocuments_eq_map (entries : List (String × Value)) :
    entryDocuments entries = entries.map fun entry => (entry.1, entry.2.toDocument) := by
  induction entries with
  | nil => rfl
  | cons entry rest ih => rw [entryDocuments, ih, List.map_cons]

theorem keys_entryDocuments (entries : List (String × Value)) :
    Entries.keys (entryDocuments entries) = Entries.keys entries := by
  rw [entryDocuments_eq_map]
  exact (Entries.keys_map id Value.toDocument entries).trans (List.map_id _)

theorem get?_entryDocuments (name : String) (entries : List (String × Value)) :
    Entries.get? name (entryDocuments entries) =
      (Entries.get? name entries).map Value.toDocument := by
  rw [entryDocuments_eq_map]
  exact Entries.get?_map Function.injective_id Value.toDocument name entries

namespace Node

variable {n : Node}

/-- No declared member has the name of a header field. -/
def HeaderFree (n : Node) : Prop :=
  ∀ header : Header, header.name ∉ Entries.keys n.declared

/-- What the document of a node has under a name: a header field that is not null, or else a
member. -/
def documentAt? (n : Node) (name : String) : Option Document :=
  match Header.ofName? name with
  | some header =>
      if (n.header header).isNull then none else some (n.header header).toDocument
  | none => (n.get? name).map Value.toDocument

theorem toDocument_eq (n : Node) :
    n.toDocument = Document.ofEntries
      (n.headerEntries ++ (entryDocuments n.declared ++ entryDocuments n.dynamic)) := by
  cases n
  rw [toDocument]

/-- A declared member of such a node is not named like a header field. -/
theorem HeaderFree.plain (h : n.HeaderFree) {name : String}
    (hname : name ∈ Entries.keys n.declared) : Header.ofName? name = none := by
  cases hheader : Header.ofName? name with
  | none => rfl
  | some header =>
      rw [← Header.name_of_ofName? hheader] at hname
      exact absurd hname (h header)

/-- The header entries are the fields that are not null. -/
theorem headerEntries_eq (n : Node) :
    n.headerEntries = ([Header.typeName, .id, .applicationId].filter fun header =>
      !(n.header header).isNull).map fun header => (header.name, (n.header header).toDocument) := by
  obtain ⟨typeName, id, applicationId, declared, dynamic⟩ := n
  cases id <;> cases applicationId <;> simp [headerEntries, header, Value.ofString?, Value.isNull,
    Value.toDocument]

theorem keys_headerEntries (n : Node) :
    Entries.keys n.headerEntries = ([Header.typeName, .id, .applicationId].filter fun header =>
      !(n.header header).isNull).map Header.name := by
  rw [headerEntries_eq, Entries.keys, List.map_map]
  rfl

theorem nodup_keys_headerEntries (n : Node) : (Entries.keys n.headerEntries).Nodup := by
  rw [keys_headerEntries]
  have hnames : ([Header.typeName, .id, .applicationId].map Header.name).Nodup := by decide
  exact hnames.sublist (List.filter_sublist.map _)

theorem ne_header_of_plain {name : String} (h : Header.ofName? name = none) (header : Header) :
    header.name ≠ name := by
  rintro rfl
  rw [Header.ofName?_name] at h
  cases h

/-- Under the name of a header field stands the field, and nothing under any other name. -/
theorem get?_headerEntries (n : Node) (name : String) :
    Entries.get? name n.headerEntries = (Header.ofName? name).bind fun header =>
      if (n.header header).isNull then none else some (n.header header).toDocument := by
  cases hname : Header.ofName? name with
  | none =>
      rw [Option.bind_none, Entries.get?_eq_none_iff, keys_headerEntries, List.mem_map]
      rintro ⟨header, -, heq⟩
      exact ne_header_of_plain hname header heq
  | some header =>
      rw [Option.bind_some]
      obtain rfl := Header.name_of_ofName? hname
      split
      · rename_i hnull
        rw [Entries.get?_eq_none_iff, keys_headerEntries, List.mem_map]
        rintro ⟨other, hother, heq⟩
        have hsame := congrArg Header.ofName? heq
        rw [Header.ofName?_name, Header.ofName?_name] at hsame
        cases Option.some.inj hsame
        simp [hnull] at hother
      · rename_i hnull
        apply Entries.get?_of_mem (nodup_keys_headerEntries n)
        rw [headerEntries_eq, List.mem_map]
        exact ⟨header, by cases header <;> simp [hnull], rfl⟩

theorem WellFormed.plain_of_mem (h : n.WellFormed) (hfree : n.HeaderFree) {name : String}
    (hname : name ∈ n.memberNames .all) : Header.ofName? name = none := by
  rw [memberNames, members, Entries.keys_append, List.mem_append] at hname
  rcases hname with hdeclared | hdynamic
  · exact hfree.plain hdeclared
  · exact h.plain name hdynamic

/-- The value of a member is read under its name. -/
theorem WellFormed.get?_of_mem (h : n.WellFormed) (hfree : n.HeaderFree) {name : String} {v : Value}
    (hmem : (name, v) ∈ n.members .all) : n.get? name = some v :=
  (h.get?_eq_some_iff (h.plain_of_mem hfree (Entries.mem_keys_of_mem hmem))).2 hmem

theorem WellFormed.nodup_keys_members (h : n.WellFormed) :
    (Entries.keys (entryDocuments n.declared ++ entryDocuments n.dynamic)).Nodup := by
  rw [Entries.keys_append, keys_entryDocuments, keys_entryDocuments, ← Entries.keys_append]
  exact h.nodup_memberNames

/-- A name has the member's document, or that of the header field if there is no member. -/
theorem exists_toDocument_members (h : n.WellFormed) :
    ∃ entries, n.toDocument = .object entries ∧ Entries.Increasing entries ∧
      ∀ name, Entries.get? name entries =
        (((Entries.get? name n.declared).or (Entries.get? name n.dynamic)).map Value.toDocument).or
          (Entries.get? name n.headerEntries) := by
  rw [toDocument_eq]
  refine ⟨_, rfl, Entries.increasing_sorted _, ?_⟩
  intro name
  rw [Entries.get?_sorted_append, Entries.get?_sorted_of_nodup h.nodup_keys_members,
    Entries.get?_sorted_of_nodup (nodup_keys_headerEntries n), Entries.get?_append,
    get?_entryDocuments, get?_entryDocuments, Option.map_or]

/-- The document of a node, name by name. -/
theorem exists_toDocument_eq (h : n.WellFormed) (hfree : n.HeaderFree) :
    ∃ entries, n.toDocument = .object entries ∧ Entries.Increasing entries ∧
      ∀ name, Entries.get? name entries = n.documentAt? name := by
  obtain ⟨entries, hdocument, hincreasing, hget⟩ := exists_toDocument_members h
  refine ⟨entries, hdocument, hincreasing, ?_⟩
  intro name
  rw [hget, get?_headerEntries, documentAt?]
  cases hname : Header.ofName? name with
  | none => rw [Option.bind_none, Option.or_none, get?_of_plain hname]
  | some header =>
      obtain rfl := Header.name_of_ofName? hname
      rw [Entries.get?_eq_none_iff.2 (hfree header), h.get?_dynamic_header header]
      rfl

end Node

end ObjectGraph
