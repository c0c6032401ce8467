import Mathlib.Logic.Relation
import ObjectGraph.Proofs.Identity.Content
import ObjectGraph.Proofs.Node.Reachable

/-!
# What the content id ignores

Two nodes are equivalent when they have the same type chain and application id, and when their
members other than `id` and those that begin with two low lines have the same names with equivalent
values (`Node.Equivalent`). Neither the order of the members counts, nor which of them are declared,
nor the order of a map. Equivalent nodes have the same canonical text, or none of them has one
(`Node.canonicalText_of_equivalent`, with the changes that leave every id alone: a new id or schema
version, and `id` or transient members written or removed, at the node or anywhere inside it).

The equivalence compares, name by name, all values that stand under the name. There is one at most
in a node or a map whose names are distinct.
-/

namespace ObjectGraph

mutual

/-- Values with the same content: primitives are the same, lists agree element by element, maps key
by key, and nodes by `Node.Equivalent`, whatever their handles. -/
inductive Value.Equivalent : Value → Value → Prop
  | primitive {v : Value} : v.isPrimitive = true → Value.Equivalent v v
  | node {h k : Handle} {a b : Node} :
      Node.Equivalent a b → Value.Equivalent (.node h a) (.node k b)
  | list {xs ys : List Value} : ListEquivalent xs ys → Value.Equivalent (.list xs) (.list ys)
  | map {xs ys : List (String × Value)} :
      (∀ key, ListEquivalent (Entries.valuesAt key xs) (Entries.valuesAt key ys)) →
        Value.Equivalent (.map xs) (.map ys)

/-- Nodes with the same type chain and application id, and with equivalent values under every name
that is neither `id` nor begins with two low lines. -/
inductive Node.Equivalent : Node → Node → Prop
  | mk {a b : Node} : a.typeName = b.typeName → a.applicationId = b.applicationId →
      (∀ name, name ≠ "id" → ¬ "__".toList <+: name.toList →
        ListEquivalent (Entries.valuesAt name (a.members .all))
          (Entries.valuesAt name (b.members .all))) →
        Node.Equivalent a b

/-- Lists of equivalent values. -/
inductive ListEquivalent : List Value → List Value → Prop
  | nil : ListEquivalent [] []
  | cons {v w : Value} {xs ys : List Value} :
      Value.Equivalent v w → ListEquivalent xs ys → ListEquivalent (v :: xs) (w :: ys)

end

/-- The text of a primitive value does not depend on the name it stands under. -/
theorem contentText?_primitive {v : Value} (h : v.isPrimitive = true) (name other : String) :
    v.contentText? name = v.contentText? other := by
  cases v with
  | null | bool | int | string => simp only [Value.contentText?, Value.canonicalTree]
  | float x =>
      simp only [Value.contentText?, Value.canonicalTree]
      split <;> rfl
  | node | list | map => cases h

mutual

/-- Equivalent values have the same text, under whatever names they stand. -/
theorem Value.Equivalent.contentText?_eq : ∀ {v w : Value}, v.Equivalent w →
    ∀ name other : String, v.contentText? name = w.contentText? other
  | _, _, .primitive h => contentText?_primitive h
  | _, _, .node h => by
      intro name other
      rw [Value.contentText?_node, Value.contentText?_node, h.canonicalText_eq]
  | _, _, .list h => by
      intro name other
      rw [Value.contentText?_list, Value.contentText?_list, h.contentTexts?_eq name other]
  | _, _, .map h => fun _ _ => Value.contentText?_map_congr fun key =>
      (h key).contentTexts?_eq key key

/-- Equivalent nodes have the same canonical text, or neither has one. -/
theorem Node.Equivalent.canonicalText_eq : ∀ {a b : Node}, a.Equivalent b →
    a.canonicalText.toOption = b.canonicalText.toOption
  | _, _, .mk htype happ h => by
      apply Node.canonicalText_congr htype happ
      intro name hname
      obtain ⟨hid, htransient⟩ := Name.isHashed_iff.1 hname
      exact (h name hid htransient).contentTexts?_eq name name

/-- Equivalent lists have the same texts. -/
theorem ListEquivalent.contentTexts?_eq : ∀ {xs ys : List Value}, ListEquivalent xs ys →
    ∀ name other : String, contentTexts? name xs = contentTexts? other ys
  | _, _, .nil => by
      intro name other
      rw [contentTexts?_nil, contentTexts?_nil]
  | _, _, .cons h hrest => by
      intro name other
      rw [contentTexts?_cons, contentTexts?_cons, h.contentText?_eq name other,
        hrest.contentTexts?_eq name other]

end

/-! ## Changes beside the content -/

theorem Name.isHashed_schemaVersion : isHashed schemaVersion = false := by decide

/-- A transient name is not that of a header field. -/
theorem Header.eq_id_of_ofName? {name : String} {header : Header}
    (hname : Name.isHashed name = false) (h : ofName? name = some header) : header = .id := by
  have hfound := List.find?_some h
  rw [beq_iff_eq] at hfound
  subst hfound
  cases header with
  | id => rfl
  | typeName | applicationId => exact absurd hname (by decide)

namespace Entries

/-- Writing a key that is filtered out changes nothing of what is left. -/
theorem filter_insert {α : Type} {p : String → Bool} {k : String} (hk : p k = false) (a : α)
    (entries : List (String × α)) :
    (insert k a entries).filter (fun entry => p entry.1) =
      entries.filter fun entry => p entry.1 := by
  induction entries with
  | nil => simp [insert, hk]
  | cons entry rest ih =>
      obtain ⟨k', a'⟩ := entry
      rw [insert]
      split
      · rename_i heq
        subst heq
        simp [hk]
      · simp [List.filter_cons, ih]

/-- Erasing a key that is filtered out changes nothing of what is left. -/
theorem filter_erase {α : Type} {p : String → Bool} {k : String} (hk : p k = false)
    (entries : List (String × α)) :
    (erase k entries).filter (fun entry => p entry.1) =
      entries.filter fun entry => p entry.1 := by
  induction entries with
  | nil => rfl
  | cons entry rest ih =>
      obtain ⟨k', a'⟩ := entry
      rw [erase]
      split
      · rename_i heq
        subst heq
        simp [hk]
      · simp [List.filter_cons, ih]

end Entries

mutual

/-- A value in which one node is changed beside its content. -/
inductive Value.SideChange : Value → Value → Prop
  | node {h k : Handle} {a b : Node} :
      Node.SideChange a b → Value.SideChange (.node h a) (.node k b)
  | item {before after : List Value} {v w : Value} :
      Value.SideChange v w → Value.SideChange (.list (before ++ v :: after))
        (.list (before ++ w :: after))
  | entry {before after : List (String × Value)} {key : String} {v w : Value} :
      Value.SideChange v w →
        Value.SideChange (.map (before ++ (key, v) :: after)) (.map (before ++ (key, w) :: after))

/-- One change of a node beside its content: another id or schema version, a member named `id` or a
transient one written or removed, or such a change of a node inside one of its members. -/
inductive Node.SideChange : Node → Node → Prop
  | id (n : Node) (id : Option String) : Node.SideChange n { n with id := id }
  | schemaVersion (n : Node) (v : Version) : Node.SideChange n (n.setSchemaVersion v)
  | set {n written : Node} {name : String} {value : Value} {previous : Option Value} :
      name = "id" ∨ "__".toList <+: name.toList → n.set name value = .ok (previous, written) →
        Node.SideChange n written
  | remove (n : Node) {name : String} :
      name = "id" ∨ "__".toList <+: name.toList → Node.SideChange n (n.remove name).2
  | declared {n : Node} {before after : List (String × Value)} {name : String} {v w : Value} :
      n.declared = before ++ (name, v) :: after → Value.SideChange v w →
        Node.SideChange n { n with declared := before ++ (name, w) :: after }
  | dynamic {n : Node} {before after : List (String × Value)} {name : String} {v w : Value} :
      n.dynamic = before ++ (name, v) :: after → Value.SideChange v w →
        Node.SideChange n { n with dynamic := before ++ (name, w) :: after }

end

/-- Ids and transient members do not count. -/
theorem Name.isHashed_eq_false {name : String} (h : name = "id" ∨ "__".toList <+: name.toList) :
    isHashed name = false := by
  rw [← Bool.not_eq_true, isHashed_iff]
  rintro ⟨hid, htransient⟩
  rcases h with h | h
  · exact hid h
  · exact htransient h

namespace Node

/-- Two nodes with the same type chain, application id and hashed members have the same content. -/
theorem canonicalTree_congr {a b : Node} (htype : a.typeName = b.typeName)
    (happ : a.applicationId = b.applicationId) (h : a.hashedMembers = b.hashedMembers) :
    a.canonicalTree = b.canonicalTree := by
  rw [canonicalTree_eq, canonicalTree_eq, htype, happ, h]

theorem canonicalTree_withDeclared {n : Node} {declared : List (String × Value)}
    (h : declared.filter (fun member => Name.isHashed member.1) =
      n.declared.filter fun member => Name.isHashed member.1) :
    canonicalTree { n with declared := declared } = n.canonicalTree := by
  refine canonicalTree_congr (a := { n with declared := declared }) rfl rfl ?_
  simp only [hashedMembers, members, List.filter_append, h]

theorem canonicalTree_withDynamic {n : Node} {dynamic : List (String × Value)}
    (h : dynamic.filter (fun member => Name.isHashed member.1) =
      n.dynamic.filter fun member => Name.isHashed member.1) :
    canonicalTree { n with dynamic := dynamic } = n.canonicalTree := by
  refine canonicalTree_congr (a := { n with dynamic := dynamic }) rfl rfl ?_
  simp only [hashedMembers, members, List.filter_append, h]

/-- Writing a member that does not count keeps the content. -/
theorem canonicalTree_set {n written : Node} {name : String} {value : Value}
    {previous : Option Value} (hname : Name.isHashed name = false)
    (h : n.set name value = .ok (previous, written)) : written.canonicalTree = n.canonicalTree := by
  obtain ⟨-, ⟨header, hheader, hset⟩ | ⟨-, -, rfl⟩ | ⟨-, -, -, rfl⟩⟩ := set_cases h
  · -- Of the header fields only the id can be written, and the content does not read it.
    obtain rfl := Header.eq_id_of_ofName? hname hheader
    cases value <;> cases hset <;> exact canonicalTree_congr rfl rfl rfl
  · exact canonicalTree_withDeclared (Entries.filter_insert hname _ _)
  · exact canonicalTree_withDynamic (Entries.filter_insert hname _ _)

theorem canonicalTree_setSchemaVersion (n : Node) (v : Version) :
    (n.setSchemaVersion v).canonicalTree = n.canonicalTree := by
  obtain ⟨previous, hset⟩ := n.set_schemaVersion v
  exact canonicalTree_set Name.isHashed_schemaVersion hset

theorem canonicalTree_remove (n : Node) {name : String} (hname : Name.isHashed name = false) :
    (n.remove name).2.canonicalTree = n.canonicalTree := by
  rw [remove]
  split
  · exact canonicalTree_withDeclared (Entries.filter_insert hname _ _)
  · exact canonicalTree_withDynamic (Entries.filter_erase hname _)

end Node

theorem canonicalEntries_replace {key : String} {v w : Value}
    (h : v.canonicalTree key = w.canonicalTree key) (before after : List (String × Value)) :
    canonicalEntries (before ++ (key, v) :: after) =
      canonicalEntries (before ++ (key, w) :: after) := by
  rw [canonicalEntries_append, canonicalEntries_append, canonicalEntries_cons,
    canonicalEntries_cons, h]

/-- The same among the members that count. -/
theorem canonicalMembers_replace {name : String} {v w : Value}
    (h : v.canonicalTree name = w.canonicalTree name) (before after : List (String × Value)) :
    canonicalMembers (before ++ (name, v) :: after) =
      canonicalMembers (before ++ (name, w) :: after) := by
  rw [canonicalMembers_eq, canonicalMembers_eq, List.filter_append, List.filter_append]
  cases hname : Name.isHashed name with
  | true => simp [hname, canonicalEntries_append, canonicalEntries_cons, h]
  | false => simp [hname]

/-- The same among the elements of a list. -/
theorem canonicalItems_replace {member : String} {v w : Value}
    (h : v.canonicalTree member = w.canonicalTree member) (before after : List Value) :
    canonicalItems member (before ++ v :: after) =
      canonicalItems member (before ++ w :: after) := by
  induction before with
  | nil => rw [List.nil_append, List.nil_append, canonicalItems_cons, canonicalItems_cons, h]
  | cons item before ih =>
      rw [List.cons_append, List.cons_append, canonicalItems_cons, canonicalItems_cons, ih]

mutual

/-- A change beside the content, at any depth, keeps the content. -/
theorem Value.SideChange.canonicalTree_eq : ∀ {v w : Value}, v.SideChange w →
    ∀ member : String, v.canonicalTree member = w.canonicalTree member
  | _, _, .node h => by
      intro member
      rw [Value.canonicalTree, Value.canonicalTree, h.canonicalTree_eq]
  | _, _, .item h => by
      intro member
      rw [Value.canonicalTree, Value.canonicalTree,
        canonicalItems_replace (h.canonicalTree_eq member)]
  | _, _, .entry h => by
      intro member
      rw [Value.canonicalTree, Value.canonicalTree, canonicalEntries_replace (h.canonicalTree_eq _)]

/-- One change beside the content leaves the content as it is. -/
theorem Node.SideChange.canonicalTree_eq : ∀ {a b : Node}, a.SideChange b →
    a.canonicalTree = b.canonicalTree
  | _, _, .id _ _ => Node.canonicalTree_congr rfl rfl rfl
  | _, _, .schemaVersion n v => (n.canonicalTree_setSchemaVersion v).symm
  | _, _, .set hname h => (Node.canonicalTree_set (Name.isHashed_eq_false hname) h).symm
  | _, _, .remove n hname => (n.canonicalTree_remove (Name.isHashed_eq_false hname)).symm
  | ⟨_, _, _, _, _⟩, _, .declared heq h => by
      simp only at heq
      subst heq
      rw [Node.canonicalTree, Node.canonicalTree,
        canonicalMembers_replace (h.canonicalTree_eq _)]
  | ⟨_, _, _, _, _⟩, _, .dynamic heq h => by
      simp only at heq
      subst heq
      rw [Node.canonicalTree, Node.canonicalTree,
        canonicalMembers_replace (h.canonicalTree_eq _)]

end

/-- Equivalent nodes have the same canonical text, or none of them has one, so their ids agree. No
sequence of changes beside the content, at a node or anywhere inside it, changes its canonical text
or its id. -/
theorem Node.canonicalText_of_equivalent :
    (∀ a b : Node, a.Equivalent b →
      ((∃ text, a.canonicalText = .ok text ∧ b.canonicalText = .ok text) ∨
        ∃ e f, a.canonicalText = .error e ∧ b.canonicalText = .error f) ∧
      a.computeId.toOption = b.computeId.toOption) ∧
    ∀ a b : Node, Relation.ReflTransGen Node.SideChange a b →
      b.canonicalText = a.canonicalText ∧ b.computeId = a.computeId := by
  constructor
  · intro a b h
    have htext : a.canonicalText.toOption = b.canonicalText.toOption := h.canonicalText_eq
    refine ⟨toOption_eq_iff.1 htext, ?_⟩
    rw [computeId, computeId, toOption_map, toOption_map, htext]
  · intro a b h
    have htree : b.canonicalTree = a.canonicalTree := by
      induction h with
      | refl => rfl
      | tail _ hchange ih => rw [← hchange.canonicalTree_eq, ih]
    have htext : b.canonicalText = a.canonicalText := by
      rw [canonicalText, canonicalText, htree]
    refine ⟨htext, ?_⟩
    rw [computeId, computeId, htext]

namespace Node

/-- A node with a declared member, and a map among the dynamic ones. -/
def sampleWall : Node where
  typeName := "Kit.Wall"
  id := none
  applicationId := some "rvt-1"
  declared := [("height", .int 3)]
  dynamic := [("tags", .list [.map [("a", .bool true), ("b", .null)]])]

/-- The same content with everything in another place, and a transient member that is not a
number. -/
def sampleWallReread : Node where
  typeName := "Kit.Wall"
  id := some "f00"
  applicationId := some "rvt-1"
  declared := []
  dynamic := [("__cache", .float ⟨0x7ff8000000000000⟩),
    ("tags", .list [.map [("b", .null), ("a", .bool true)]]), ("height", .int 3)]

/-- The members and the entries of the map stand in another order, and neither ids nor transient
members count. -/
theorem sampleWall_equivalent : sampleWall.Equivalent sampleWallReread := by
  have hmap : ∀ key, ListEquivalent
      (Entries.valuesAt key [("a", .bool true), ("b", .null)])
      (Entries.valuesAt key [("b", .null), ("a", .bool true)]) := by
    intro key
    by_cases ha : "a" = key
    · subst ha
      exact .cons (.primitive rfl) .nil
    · by_cases hb : "b" = key
      · subst hb
        exact .cons (.primitive rfl) .nil
      · simp only [Entries.valuesAt_cons, if_neg ha, if_neg hb]
        exact .nil
  refine .mk rfl rfl ?_
  intro name _ htransient
  have hcache : "__cache" ≠ name := by
    rintro rfl
    exact htransient (by decide)
  simp only [members, sampleWall, sampleWallReread, List.cons_append, List.nil_append,
    Entries.valuesAt_cons, if_neg hcache]
  by_cases hheight : "height" = name
  · subst hheight
    exact .cons (.primitive rfl) .nil
  · by_cases htags : "tags" = name
    · subst htags
      exact .cons (.list (.cons (.map hmap) .nil)) .nil
    · simp only [if_neg hheight, if_neg htags]
      exact .nil

/-- The wall keeps its id when it is read again and when a version is recorded. -/
theorem canonicalText_sampleWall :
    sampleWall.Equivalent sampleWallReread ∧
      sampleWall.computeId.toOption = sampleWallReread.computeId.toOption ∧
      (sampleWall.setSchemaVersion ⟨2, 0, 0⟩).computeId = sampleWall.computeId :=
  ⟨sampleWall_equivalent, (canonicalText_of_equivalent.1 _ _ sampleWall_equivalent).2,
    (canonicalText_of_equivalent.2 _ _ (.single (.schemaVersion sampleWall ⟨2, 0, 0⟩))).2⟩

end Node

end ObjectGraph
