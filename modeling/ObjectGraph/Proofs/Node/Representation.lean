import ObjectGraph.Proofs.Node.Access

/-!
# What every run of operations leaves

A node is made in one of three ways (`Node.Origin`) and is then changed by operations, which are run
in place one after the other; a write that is refused is one of them and leaves the node. After
every run the node is consistent (`Node.consistent_run`): its names are distinct, those of the
dynamic members are valid, the header fields have their types, and reading agrees with the list of
members.

Two facts carry this. What a run leaves is reachable, so it is well formed; and no operation writes
a slot with the name of a header field, so such a slot is always null
(`Node.Reachable.slot_eq_null`).
-/

namespace ObjectGraph

namespace Node

variable {n m : Node} {name : String} {value : Value} {previous : Option Value}

/-- How a node is made. -/
inductive Origin where
  | new (typeName : String)
  | withMembers (typeName : String) (names : List String)
  /-- A node of the root type. -/
  | root
deriving DecidableEq, Repr

/-- The node as it is made. -/
def Origin.node : Origin → Node
  | .new typeName => .new typeName
  | .withMembers typeName names => .withMembers typeName names
  | .root => .new Name.rootType

/-- What is done to a node that has been made. -/
inductive Operation where
  | declare (name : String)
  | set (name : String) (value : Value)
  | remove (name : String)
  | setTypeName (typeName : String)
  | setId (id : Option String)
  | setApplicationId (applicationId : Option String)
  | setSchemaVersion (v : Version)

namespace Operation

/-- The operation in place, with the value that it gives back. Only a write can be refused. -/
def perform : Operation → EStateM PropertyError Node (Option Value)
  | .declare name => modifyGet fun n => (none, n.declare name)
  | .set name value => write name value
  | .remove name => modifyGet fun n => n.remove name
  | .setTypeName typeName => modifyGet fun n => (none, { n with typeName })
  | .setId id => modifyGet fun n => (none, { n with id })
  | .setApplicationId applicationId => modifyGet fun n => (none, { n with applicationId })
  | .setSchemaVersion v => modifyGet fun n => (none, n.setSchemaVersion v)

/-- The node that the operation leaves, whether it is accepted or refused. -/
def after (operation : Operation) (n : Node) : Node :=
  match operation.perform n with
  | .ok _ m => m
  | .error _ m => m

end Operation

/-- The node that the operations leave, one after the other. -/
def run (operations : List Operation) (n : Node) : Node :=
  operations.foldl (fun n operation => operation.after n) n

/-- What readers of a node can rely on. -/
structure Consistent (n : Node) : Prop where
  oneSide : ∀ name ∈ n.memberNames .declared, name ∉ n.memberNames .dynamic
  distinct : (n.memberNames .all).Nodup
  valid : ∀ name ∈ n.memberNames .dynamic, Name.validate name = .ok () ∧ Name.isHeader name = false
  typed : ∀ header : Header, ∃ v, n.get? header.name = some v ∧ header.Takes v
  hidden : ∀ header : Header, ∀ v, (header.name, v) ∈ n.members .declared → v = .null
  count : n.memberCount = (n.members .all).length
  present : ∀ name, Name.isHeader name = false → (n.get? name).isSome = n.hasMember name
  read : ∀ name, Name.isHeader name = false → ∀ v, n.get? name = some v ↔ (name, v) ∈ n.members .all
  dynamic : ∀ name, n.isDynamic name = true ↔ name ∈ n.memberNames .dynamic

/-! ## One operation -/

/-- A write leaves the node as it was, or it succeeds. -/
theorem after_set (n : Node) (name : String) (value : Value) :
    (Operation.set name value).after n = n ∨
      ∃ previous, n.set name value = .ok (previous, (Operation.set name value).after n) := by
  rw [Operation.after, Operation.perform, write_eq]
  cases n.set name value with
  | error error => exact .inl rfl
  | ok answer =>
      obtain ⟨previous, m⟩ := answer
      exact .inr ⟨previous, rfl⟩

/-- Every operation leads from reachable nodes to reachable ones. -/
theorem Reachable.after (h : n.Reachable) (operation : Operation) :
    (operation.after n).Reachable := by
  cases operation with
  | declare name => exact h.declare name
  | set name value =>
      rcases after_set n name value with heq | ⟨previous, hset⟩
      · rwa [heq]
      · exact h.set hset
  | remove name => exact h.remove name
  | setTypeName typeName => exact h.setTypeName typeName
  | setId id => exact h.setId id
  | setApplicationId applicationId => exact h.setApplicationId applicationId
  | setSchemaVersion v => exact h.setSchemaVersion v

theorem reachable_origin (origin : Origin) : origin.node.Reachable := by
  cases origin with
  | new typeName => exact .new typeName
  | withMembers typeName names => exact reachable_withMembers typeName names
  | root => exact .new Name.rootType

/-- Operations lead from reachable nodes to reachable ones. -/
theorem Reachable.run (h : n.Reachable) (operations : List Operation) :
    (n.run operations).Reachable := by
  induction operations generalizing n with
  | nil => exact h
  | cons operation rest ih => exact ih (h.after operation)

/-- Removing a member keeps the declared names. -/
theorem declaredNames_remove (n : Node) (name : String) :
    (n.remove name).2.memberNames .declared = n.memberNames .declared := by
  by_cases hmem : name ∈ Entries.keys n.declared
  · rw [snd_remove_of_mem hmem]
    exact Entries.keys_insert_of_mem hmem _
  · rw [snd_remove_of_not_mem hmem]
    rfl

theorem declaredNames_declare (n : Node) (name : String) :
    n.memberNames .declared <+: (n.declare name).memberNames .declared := by
  by_cases hmem : name ∈ Entries.keys n.declared
  · exact (declare_of_mem hmem).symm ▸ List.prefix_rfl
  · rw [declare_of_not_mem hmem, memberNames, memberNames, members, members, Entries.keys_append]
    exact List.prefix_append _ _

/-- No operation takes a declared name away or moves one. -/
theorem declaredNames_after (n : Node) (operation : Operation) :
    n.memberNames .declared <+: (operation.after n).memberNames .declared := by
  have hsame : ∀ m : Node, m.memberNames .declared = n.memberNames .declared →
      n.memberNames .declared <+: m.memberNames .declared := fun m heq => heq ▸ List.prefix_rfl
  cases operation with
  | declare name => exact n.declaredNames_declare name
  | set name value =>
      apply hsame
      rcases after_set n name value with heq | ⟨previous, hset⟩
      · rw [heq]
      · exact (setGives_of_set hset).declaredNames
  | remove name =>
      apply hsame
      exact n.declaredNames_remove name
  | setSchemaVersion v =>
      obtain ⟨previous, hset⟩ := n.set_schemaVersion v
      apply hsame
      exact (setGives_of_set hset).declaredNames
  | setTypeName _ | setId _ | setApplicationId _ => exact List.prefix_rfl

/-! ## Slots with the name of a header field -/

/-- A write under another name, or of null, keeps a slot null. -/
theorem slot_insert {header : Header}
    (h : ∀ v, Entries.get? header.name n.declared = some v → v = .null)
    (hwrite : name ≠ header.name ∨ value = .null) :
    ∀ v, Entries.get? header.name (Entries.insert name value n.declared) = some v → v = .null := by
  intro v hv
  rw [Entries.get?_insert] at hv
  split at hv
  · rename_i heq
    rcases hwrite with hne | hnull
    · exact absurd heq hne
    · rw [← hnull, Option.some.inj hv]
  · exact h v hv

/-- A write under the name of a header field goes to the field. -/
theorem slot_set {header : Header}
    (h : ∀ v, Entries.get? header.name n.declared = some v → v = .null)
    (hset : n.set name value = .ok (previous, m)) :
    ∀ v, Entries.get? header.name m.declared = some v → v = .null := by
  obtain ⟨-, ⟨field, -, hfield⟩ | ⟨hplain, -, rfl⟩ | ⟨-, -, -, rfl⟩⟩ := set_cases hset
  · rwa [(setHeader_eq_ok hfield).1]
  · refine slot_insert h (.inl ?_)
    rintro rfl
    rw [Header.ofName?_name] at hplain
    cases hplain
  · exact h

/-- A member that is declared with the name of a header field is never written: a write goes to the
field, and there is no dynamic member of the name that a declaration could take over. -/
theorem Reachable.slot_eq_null (h : n.Reachable) (header : Header) :
    ∀ v, Entries.get? header.name n.declared = some v → v = .null := by
  induction h with
  | new typeName => exact fun v hv => by cases hv
  | @declare n name hn ih =>
      by_cases hmem : name ∈ Entries.keys n.declared
      · rwa [declare_of_mem hmem]
      · intro v hv
        rw [declare_of_not_mem hmem, Entries.get?_append, Entries.get?_cons, Entries.get?_nil] at hv
        rcases Option.or_eq_some_iff.1 hv with hold | ⟨-, hnew⟩
        · exact ih v hold
        · split at hnew
          · rename_i heq
            -- No dynamic member has the name of a header field, so the new slot takes over nothing.
            rw [heq, hn.wellFormed.get?_dynamic_header header] at hnew
            exact (Option.some.inj hnew).symm
          · cases hnew
  | set _ hset ih => exact slot_set ih hset
  | @remove n name _ ih =>
      by_cases hmem : name ∈ Entries.keys n.declared
      · rw [snd_remove_of_mem hmem]
        exact slot_insert ih (.inr rfl)
      · rwa [snd_remove_of_not_mem hmem]
  | setTypeName _ _ ih | setId _ _ ih | setApplicationId _ _ ih => exact ih
  | @setSchemaVersion n v _ ih =>
      obtain ⟨previous, hset⟩ := n.set_schemaVersion v
      exact slot_set ih hset

/-! ## Runs -/

/-- Reachable nodes are consistent. -/
theorem Reachable.consistent (h : n.Reachable) : n.Consistent where
  oneSide name hdeclared hdynamic := h.wellFormed.oneSide name hdynamic hdeclared
  distinct := h.wellFormed.nodup_memberNames
  valid name hname :=
    ⟨h.wellFormed.valid name hname, isHeader_eq_false_iff.2 (h.wellFormed.plain name hname)⟩
  typed header := ⟨n.header header, get?_of_header (Header.ofName?_name header),
    takes_header n header⟩
  hidden header v hmem := h.slot_eq_null header v (Entries.get?_of_mem h.wellFormed.declared hmem)
  count := by rw [memberCount, members, List.length_append]
  present name hplain := by
    rw [get?_of_plain (isHeader_eq_false_iff.1 hplain), hasMember, Entries.contains,
      Entries.contains, Option.isSome_or]
  read name hplain v := h.wellFormed.get?_eq_some_iff (isHeader_eq_false_iff.1 hplain)
  dynamic name := Entries.contains_iff_mem_keys name n.dynamic

/-- Every run leaves a consistent node, however the node is made and whether the writes of the run
are accepted or refused. A further operation keeps the declared names in their order, and a new one
comes last. -/
theorem consistent_run (origin : Origin) (operations : List Operation) :
    (origin.node.run operations).Consistent ∧
      ∀ operation : Operation, (origin.node.run operations).memberNames .declared <+:
        (operation.after (origin.node.run operations)).memberNames .declared :=
  ⟨((reachable_origin origin).run operations).consistent, declaredNames_after _⟩

end Node

end ObjectGraph
