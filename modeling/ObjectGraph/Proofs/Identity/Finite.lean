import ObjectGraph.Proofs.Identity.Content
import ObjectGraph.Proofs.Traversal.DistinctNodes

/-!
# Graphs of finite numbers

The content of a node leaves out transient members, so that it has an id says nothing about the
nodes under them, which a walk visits as well. `Value.Finite` asks for finite floats in members of
any kind. Then every node has an id (`Node.Finite.exists_computeId`), and so has every node that is
listed under it (`Node.Finite.exists_computeId_flatten`).
-/

namespace ObjectGraph

/-- All floats in a value are finite. -/
inductive Value.Finite : Value → Prop
  | null : Finite .null
  | bool (b : Bool) : Finite (.bool b)
  | int (n : Int64) : Finite (.int n)
  | float {x : Binary64} (finite : x.isFinite = true) : Finite (.float x)
  | string (s : String) : Finite (.string s)
  | list {items : List Value} (hitems : ∀ item ∈ items, Finite item) : Finite (.list items)
  | map {entries : List (String × Value)} (hvalues : ∀ entry ∈ entries, Finite entry.2) :
      Finite (.map entries)
  | node {handle : Handle} {n : Node} (hmembers : ∀ member ∈ n.members .all, Finite member.2) :
      Finite (.node handle n)

/-- All floats in the members of a node are finite, in transient members as well. -/
def Node.Finite (n : Node) : Prop :=
  ∀ member ∈ n.members .all, member.2.Finite

theorem Value.finite_node_iff {handle : Handle} {n : Node} :
    (Value.node handle n).Finite ↔ n.Finite := by
  constructor
  · rintro (_ | _ | _ | _ | _ | _ | _ | hmembers)
    exact hmembers
  · exact .node

/-! ## Contents -/

/-- A value of finite floats has a content. -/
theorem Value.Finite.exists_canonicalTree {v : Value} (h : v.Finite) :
    ∀ member, ∃ d, v.canonicalTree member = .ok d := by
  induction h with
  | null => exact fun _ => ⟨.null, by rw [canonicalTree]⟩
  | bool b => exact fun _ => ⟨.bool b, by rw [canonicalTree]⟩
  | int n => exact fun _ => ⟨Document.ofInt64 n, by rw [canonicalTree]⟩
  | @float x finite => exact fun _ => ⟨.float x finite, by rw [canonicalTree, dif_pos finite]⟩
  | string s => exact fun _ => ⟨.string s, by rw [canonicalTree]⟩
  | list _ ih =>
      intro member
      obtain ⟨ds, hds⟩ := exists_canonicalItems_iff.2 fun item hitem => ih item hitem member
      exact ⟨.array ds, by rw [canonicalTree, hds]; rfl⟩
  | map _ ih =>
      intro member
      obtain ⟨es, hes⟩ := exists_canonicalEntries_iff.2 fun entry hentry => ih entry hentry entry.1
      exact ⟨.ofEntries es, by rw [canonicalTree, hes]; rfl⟩
  | @node handle n _ ih =>
      -- The members that count are some of those that are finite.
      intro member
      obtain ⟨es, hes⟩ := exists_canonicalEntries_iff.2 fun entry hentry =>
        ih entry (List.mem_of_mem_filter hentry) entry.1
      exact ⟨_, by rw [canonicalTree, Node.canonicalTree_eq, Node.hashedMembers, hes]; rfl⟩

theorem Node.Finite.exists_computeId {n : Node} (h : n.Finite) : ∃ id, n.computeId = .ok id := by
  -- The content of a node is that of a value under any handle and any name.
  have hvalue : (Value.node ⟨[]⟩ n).Finite := Value.finite_node_iff.2 h
  obtain ⟨d, hd⟩ := hvalue.exists_canonicalTree ""
  rw [Value.canonicalTree] at hd
  exact ⟨idOfText d.written, by rw [computeId, canonicalText, hd]; rfl⟩

/-! ## Nodes of a graph -/

/-- The nodes that a value opens to are as finite as the value. -/
theorem Value.Finite.of_mem_vertices {v : Value} (h : v.Finite) {w : Vertex} (hw : w ∈ v.vertices) :
    w.node.Finite := by
  induction h with
  | null | bool | int | float | string => cases hw
  | list _ ih =>
      obtain ⟨item, hitem, hw⟩ := mem_listVertices_iff.1 hw
      exact ih item hitem hw
  | map _ ih =>
      rw [vertices, ← listVertices_values] at hw
      obtain ⟨value, hvalue, hw⟩ := mem_listVertices_iff.1 hw
      obtain ⟨entry, hentry, rfl⟩ := List.mem_map.1 hvalue
      exact ih entry hentry hw
  | node hmembers _ =>
      rw [vertices, List.mem_singleton] at hw
      subst hw
      exact hmembers

/-- The nodes under the members of a finite node are finite. -/
theorem Node.Finite.of_mem_under {n : Node} (h : n.Finite) {name : String} {v : Vertex}
    (hv : v ∈ n.under name) : v.node.Finite := by
  cases hname : Header.ofName? name with
  | some header =>
      rw [under_of_header hname] at hv
      cases hv
  | none =>
      obtain ⟨value, found, hget, hopens, hfound⟩ := mem_under_iff.1 hv
      rw [hopens.eq_vertices] at hfound
      exact (h _ (mem_members_of_get? hname hget)).of_mem_vertices hfound

/-- Every node that is listed under a node of finite floats is one itself. -/
theorem Node.Finite.of_mem_flatten {root : Vertex} (h : root.node.Finite) :
    ∀ v ∈ flatten root, v.node.Finite := by
  have hshown : ∀ c ∈ (Walk.start [] root).toList, c.node.Finite := by
    apply Walk.forall_mem_toList
    · exact h
    · intro c hc d hd
      obtain ⟨name, -, v, hv, rfl⟩ := Rule.mem_expand_iff.1 hd
      exact hc.of_mem_under hv
  intro v hv
  obtain ⟨c, hc, rfl⟩ :=
    List.mem_map.1 (List.mem_of_find?_eq_some (mem_distinctVertices_iff.1 hv).2)
  exact hshown c hc

/-- Every node that is listed has an id, whether or not it belongs to the content of the root. -/
theorem Node.Finite.exists_computeId_flatten {root : Vertex} (h : root.node.Finite) :
    ∀ v ∈ flatten root, ∃ id, v.node.computeId = .ok id :=
  fun v hv => (of_mem_flatten h v hv).exists_computeId

end ObjectGraph
