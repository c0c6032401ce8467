import ObjectGraph.Proofs.Document.SameTree
import ObjectGraph.Proofs.Identity.Content
import ObjectGraph.Proofs.Value.Alike

/-!
# Equal canonical bytes, equal content

The content of a node is an ordered document, as every object in it is made by sorting
(`Node.ordered_canonicalTree`). So the bytes of the canonical text determine the content: two nodes
have the same bytes exactly when their contents are the same tree
(`Node.toUTF8_canonicalText_eq_iff`).
-/

namespace ObjectGraph

/-- Sorting puts the entries in order, whatever their order was. -/
theorem Document.ordered_ofEntries {entries : List (String × Document)}
    (h : ∀ entry ∈ entries, entry.2.Ordered) : (ofEntries entries).Ordered :=
  .object (Entries.increasing_sorted entries) fun entry hentry =>
    h entry (Entries.mem_of_mem_sorted hentry)

/-- The header entries of a content are ordered documents. -/
theorem Node.ordered_contentHeader (typeName : String) (applicationId : Option String) :
    ∀ entry ∈ contentHeader typeName applicationId, entry.2.Ordered := by
  rw [contentHeader, List.forall_mem_cons, List.forall_mem_singleton]
  refine ⟨.string typeName, ?_⟩
  cases applicationId with
  | none => exact .null
  | some text => exact .string text

/-- The content of a node is ordered if the contents of its members are. -/
theorem Node.ordered_canonicalTree_of_members {n : Node} {d : Document}
    (ih : ∀ member ∈ n.members .all, ∀ {name e}, member.2.canonicalTree name = .ok e → e.Ordered)
    (h : n.canonicalTree = .ok d) : d.Ordered := by
  rw [canonicalTree_eq, bind_pure_eq_ok_iff] at h
  obtain ⟨es, hes, rfl⟩ := h
  apply Document.ordered_ofEntries
  refine List.forall_mem_append.2 ⟨ordered_contentHeader n.typeName n.applicationId, ?_⟩
  intro entry hentry
  obtain ⟨v, hv, hcontent⟩ := exists_of_mem_canonicalEntries hes hentry
  exact ih (entry.1, v) (List.mem_filter.1 hv).1 hcontent

/-- The content of a value is an ordered document. -/
theorem Value.ordered_canonicalTree (v : Value) : ∀ {member : String} {d : Document},
    v.canonicalTree member = .ok d → d.Ordered := by
  induction v using Value.induction with
  | primitive v hprimitive =>
      intro member d h
      cases v with
      | null =>
          cases h
          exact .null
      | bool b =>
          cases h
          exact .bool b
      | int n =>
          cases h
          exact .integer n.toInt _ _
      | float x =>
          rw [canonicalTree] at h
          split at h
          · cases h
            exact .float x _
          · cases h
      | string s =>
          cases h
          exact .string s
      | node | list | map => cases hprimitive
  | node handle n ih =>
      intro member d h
      rw [canonicalTree] at h
      exact Node.ordered_canonicalTree_of_members ih h
  | list items ih =>
      intro member d h
      rw [canonicalTree, bind_pure_eq_ok_iff] at h
      obtain ⟨ds, hds, rfl⟩ := h
      refine .array ?_
      intro e he
      obtain ⟨item, hitem, hcontent⟩ := exists_of_mem_canonicalItems hds he
      exact ih item hitem hcontent
  | map entries ih =>
      intro member d h
      rw [canonicalTree, bind_pure_eq_ok_iff] at h
      obtain ⟨es, hes, rfl⟩ := h
      apply Document.ordered_ofEntries
      intro entry hentry
      obtain ⟨v, hv, hcontent⟩ := exists_of_mem_canonicalEntries hes hentry
      exact ih (entry.1, v) hv hcontent

theorem Node.ordered_canonicalTree (n : Node) {d : Document} (h : n.canonicalTree = .ok d) :
    d.Ordered :=
  ordered_canonicalTree_of_members (fun member _ => member.2.ordered_canonicalTree) h

/-- Two nodes with canonical texts have the same bytes exactly when their contents are the same
tree. -/
theorem Node.toUTF8_canonicalText_eq_iff {a b : Node} {s t : String} (ha : a.canonicalText = .ok s)
    (hb : b.canonicalText = .ok t) :
    s.toUTF8 = t.toUTF8 ↔
      ∃ d e, a.canonicalTree = .ok d ∧ b.canonicalTree = .ok e ∧ d.SameTree e := by
  obtain ⟨d, hd, rfl⟩ := map_eq_ok_iff.1 ha
  obtain ⟨e, he, rfl⟩ := map_eq_ok_iff.1 hb
  have hsame := Document.written_eq_iff (ordered_canonicalTree a hd) (ordered_canonicalTree b he)
  rw [String.toUTF8_eq_toByteArray, String.toUTF8_eq_toByteArray, String.toByteArray_inj, hsame]
  -- What is left is that each node has no other content than the one its text comes from.
  constructor
  · intro h
    exact ⟨d, e, hd, he, h⟩
  · rintro ⟨d', e', hd', he', h⟩
    rw [hd] at hd'
    rw [he] at he'
    cases hd'
    cases he'
    exact h

namespace Node

/-- A node whose length is an integer. -/
def sampleBeam : Node where
  typeName := "Kit.Beam"
  id := none
  applicationId := none
  declared := [("length", .int 3)]
  dynamic := []

/-- The same node with its length as a double. -/
def sampleBeamMeasured : Node where
  typeName := "Kit.Beam"
  id := none
  applicationId := none
  declared := [("length", .float ⟨0x4008000000000000⟩)]
  dynamic := []

/-- Three as an integer and as a double: one text, and the same tree. -/
theorem toUTF8_canonicalText_sampleBeam :
    ∃ s, sampleBeam.canonicalText = .ok s ∧ sampleBeamMeasured.canonicalText = .ok s ∧
      ∃ d e, sampleBeam.canonicalTree = .ok d ∧ sampleBeamMeasured.canonicalTree = .ok e ∧
        d.SameTree e := by
  have hbeam : sampleBeam.canonicalText =
      .ok "\x7b\"applicationId\":null,\"length\":3,\"speckle_type\":\"Kit.Beam\"\x7d" := by rfl
  have hmeasured : sampleBeamMeasured.canonicalText =
      .ok "\x7b\"applicationId\":null,\"length\":3,\"speckle_type\":\"Kit.Beam\"\x7d" := by rfl
  exact ⟨_, hbeam, hmeasured, (toUTF8_canonicalText_eq_iff hbeam hmeasured).1 rfl⟩

end Node

end ObjectGraph
