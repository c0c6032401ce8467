import ObjectGraph.Proofs.Node.Reachable

/-!
# What access to a member changes

A name is looked for in three places, and each operation has its own order: a write goes to a header
field first, a removal passes the header fields by, a declaration takes the value of a dynamic
member with it. Whatever the name is, each operation changes one member and leaves the values and
the order of all others (`Node.access_changes_one_member`).

`Node.write` makes the same write in place, one change after the other. It ends as `Node.set` says
(`Node.write_eq`); in particular all checks come before the first change, so a refused write leaves
the node.
-/

namespace ObjectGraph

namespace Node

variable {n m : Node} {name : String} {value : Value} {previous : Option Value}

/-! ## Writing in place -/

/-- A write in place: the checks and the changes in the order in which they are made. -/
def write (name : String) (value : Value) : EStateM PropertyError Node (Option Value) := do
  let n ← get
  match Header.ofName? name with
  | some header =>
      -- The field may refuse the value; the node is replaced only after that.
      let written ← ofExcept (n.setHeader header value)
      modify fun _ => written
      return some (n.header header)
  | none =>
      match Entries.get? name n.declared with
      | some previous =>
          modify fun n => { n with declared := Entries.insert name value n.declared }
          return some previous
      | none =>
          -- Neither a field nor a slot, so the name has to be one that a dynamic member can have.
          ofExcept (Name.validate name)
          modify fun n => { n with dynamic := Entries.insert name value n.dynamic }
          return Entries.get? name n.dynamic

/-- How an operation ends in place: with its answer and the node it gives, or with its error and the
node as it was. -/
def inPlace (n : Node) : Except PropertyError (Option Value × Node) →
    EStateM.Result PropertyError Node (Option Value)
  | .ok (answer, m) => .ok answer m
  | .error error => .error error n

/-- Every check of a write comes before its first change. -/
theorem write_eq (n : Node) (name : String) (value : Value) :
    write name value n = n.inPlace (n.set name value) := by
  have hget : ∀ rest : Node →
      EStateM PropertyError Node (Option Value), (get >>= rest) n = rest n n :=
    fun _ => rfl
  rw [write, hget, Node.set]
  cases Header.ofName? name with
  | some header =>
      dsimp only
      cases n.setHeader header value with
      | ok written => rfl
      | error error => rfl
  | none =>
      dsimp only
      cases Entries.get? name n.declared with
      | some previous => rfl
      | none =>
          dsimp only
          cases Name.validate name with
          | ok _ => rfl
          | error error => rfl

/-! ## Writing -/

/-- What a write gives: the value before, and a node with the new value under the name. The other
members keep their values and their places; a name that is new comes last among the dynamic ones. -/
structure SetGives (n : Node) (name : String) (value : Value) (previous : Option Value) (m : Node) :
    Prop where
  answer : previous = n.get? name
  written : m.get? name = some value
  others : ∀ other, other ≠ name → m.get? other = n.get? other
  members : ∀ kind other v, other ≠ name →
    ((other, v) ∈ m.members kind ↔ (other, v) ∈ n.members kind)
  declaredNames : m.memberNames .declared = n.memberNames .declared
  dynamicNames : m.memberNames .dynamic =
    if Name.isHeader name ∨ n.hasMember name then n.memberNames .dynamic
    else n.memberNames .dynamic ++ [name]

theorem hasMember_iff : n.hasMember name = true ↔
    name ∈ Entries.keys n.declared ∨ name ∈ Entries.keys n.dynamic := by
  rw [hasMember, Bool.or_eq_true, Entries.contains_iff_mem_keys, Entries.contains_iff_mem_keys]

theorem isHeader_eq_false_iff : Name.isHeader name = false ↔ Header.ofName? name = none := by
  rw [Name.isHeader, Option.isSome_eq_false_iff, Option.isNone_iff_eq_none]

/-- What a write that is not refused gives. -/
theorem setGives_of_set (h : n.set name value = .ok (previous, m)) :
    n.SetGives name value previous m := by
  have hwritten := written_of_set h
  obtain ⟨hprevious, hcase⟩ := set_cases h
  have hread : m.get? name = some value := by rw [hwritten.get?, if_pos rfl]
  have hothers : ∀ other, other ≠ name → m.get? other = n.get? other := by
    intro other hne
    rw [hwritten.get?, if_neg (Ne.symm hne)]
  refine ⟨hprevious, hread, hothers, ?_, hwritten.declared, ?_⟩
  · intro kind other v hne
    rcases hcase with ⟨header, -, hset⟩ | ⟨-, -, rfl⟩ | ⟨-, -, -, rfl⟩
    · obtain ⟨hdeclared, hdynamic, -⟩ := setHeader_eq_ok hset
      cases kind <;> simp only [Node.members, hdeclared, hdynamic]
    · cases kind <;> simp [Node.members, Entries.mem_insert_of_ne hne]
    · cases kind <;> simp [Node.members, Entries.mem_insert_of_ne hne]
  · rcases hcase with ⟨header, hname, hset⟩ | ⟨-, hmem, rfl⟩ | ⟨hname, hmem, -, rfl⟩
    · obtain ⟨-, hdynamic, -⟩ := setHeader_eq_ok hset
      have hheader : Name.isHeader name = true := by rw [Name.isHeader, hname, Option.isSome_some]
      rw [if_pos (.inl hheader), memberNames, memberNames, Node.members, Node.members, hdynamic]
    · rw [if_pos (.inr (hasMember_iff.2 (.inl hmem)))]
      rfl
    · -- The name is neither a header field's nor declared, so the dynamic side decides.
      have hiff : (Name.isHeader name = true ∨ n.hasMember name = true) ↔
          name ∈ Entries.keys n.dynamic := by
        rw [isHeader_eq_false_iff.2 hname, hasMember_iff]
        simp [hmem]
      simp only [hiff, memberNames, Node.members]
      exact Entries.keys_insert name value n.dynamic

/-! ## Removing -/

/-- What removing a member gives: its value, if there is such a member. A declared member becomes
null in its place, a dynamic one is dropped, and nothing else changes; a header field of the name
stays as it is. -/
structure RemoveGives (n : Node) (name : String) (previous : Option Value) (m : Node) : Prop where
  answer : ∀ v, previous = some v ↔ (name, v) ∈ n.members .all
  declared : m.members .declared =
    (n.members .declared).map fun member => (member.1, if member.1 = name then .null else member.2)
  dynamic : m.members .dynamic = (n.members .dynamic).filter fun member => member.1 ≠ name
  absent : n.hasMember name = false → previous = none ∧ m = n
  header : ∀ field : Header, m.header field = n.header field
  others : ∀ other, other ≠ name → m.get? other = n.get? other

/-- A declared member is removed by writing null into its slot. -/
theorem WellFormed.removeGives_of_mem (hn : n.WellFormed) (hmem : name ∈ Entries.keys n.declared) :
    n.RemoveGives name (Entries.get? name (n.members .all))
      { n with declared := Entries.insert name .null n.declared } where
  answer v := ⟨Entries.mem_of_get?, Entries.get?_of_mem hn.nodup_memberNames⟩
  declared := Entries.insert_eq_map hn.declared hmem _
  dynamic := (Entries.filter_of_not_mem fun hdynamic => hn.oneSide name hdynamic hmem).symm
  absent hnone := by
    rw [hasMember_iff.2 (.inl hmem)] at hnone
    cases hnone
  header := by rintro (_ | _ | _) <;> rfl
  others other hne := by
    apply get?_congr (by rintro (_ | _ | _) <;> rfl)
    rw [Entries.get?_insert, if_neg (Ne.symm hne)]

/-- A dynamic member is removed with its slot. -/
theorem WellFormed.removeGives_of_not_mem (hn : n.WellFormed)
    (hmem : name ∉ Entries.keys n.declared) :
    n.RemoveGives name (Entries.get? name (n.members .all))
      { n with dynamic := Entries.erase name n.dynamic } where
  answer v := ⟨Entries.mem_of_get?, Entries.get?_of_mem hn.nodup_memberNames⟩
  declared := (Entries.map_of_not_mem hmem _).symm
  dynamic := Entries.erase_eq_filter hn.dynamic name
  absent hnone := by
    have hdynamic : name ∉ Entries.keys n.dynamic := by
      intro hother
      rw [hasMember_iff.2 (.inr hother)] at hnone
      cases hnone
    rw [Entries.erase_eq_filter hn.dynamic, Entries.filter_of_not_mem hdynamic,
      Entries.get?_eq_none_iff, members, Entries.keys_append, List.mem_append, not_or]
    exact ⟨⟨hmem, hdynamic⟩, by cases n; rfl⟩
  header := by rintro (_ | _ | _) <;> rfl
  others other hne := by
    apply get?_congr (by rintro (_ | _ | _) <;> rfl)
    rw [Entries.get?_erase hn.dynamic, if_neg (Ne.symm hne)]

/-- What removing a member gives. -/
theorem WellFormed.removeGives (hn : n.WellFormed) (name : String) :
    n.RemoveGives name (n.remove name).1 (n.remove name).2 := by
  rw [fst_remove]
  by_cases hmem : name ∈ Entries.keys n.declared
  · rw [snd_remove_of_mem hmem]
    exact hn.removeGives_of_mem hmem
  · rw [snd_remove_of_not_mem hmem]
    exact hn.removeGives_of_not_mem hmem

/-! ## Declaring -/

/-- What declaring a name gives: reading changes at most under the name, where null is read if
nothing was read before. A new slot comes last and takes the value of the dynamic member of the
name, which is dropped. -/
structure DeclareGives (n : Node) (name : String) (m : Node) : Prop where
  read : ∀ other, m.get? other =
    if other = name ∧ n.get? other = none then some .null else n.get? other
  header : ∀ field : Header, m.header field = n.header field
  known : name ∈ n.memberNames .declared → m = n
  slot : name ∉ n.memberNames .declared → m.members .declared =
    n.members .declared ++ [(name, (Entries.get? name (n.members .dynamic)).getD .null)]
  dynamic : m.members .dynamic = (n.members .dynamic).filter fun member => member.1 ≠ name

/-- What is declared can be read. -/
theorem get?_ne_none_of_mem (h : name ∈ Entries.keys n.declared) : n.get? name ≠ none := by
  cases hname : Header.ofName? name with
  | some header =>
      rw [get?_of_header hname]
      exact Option.some_ne_none _
  | none =>
      obtain ⟨v, hv⟩ := Entries.mem_keys_iff_exists_get?.1 h
      rw [← get?_declared_of_mem hname h, hv]
      exact Option.some_ne_none _

/-- A name that is declared anew is read as before, or as null. -/
theorem WellFormed.get?_promoted (hn : n.WellFormed) (hmem : name ∉ Entries.keys n.declared)
    (other : String) :
    Node.get? { n with
      declared := n.declared ++ [(name, (Entries.get? name n.dynamic).getD .null)]
      dynamic := Entries.erase name n.dynamic } other =
        if other = name ∧ n.get? other = none then some .null else n.get? other := by
  by_cases hne : other = name
  · subst hne
    cases hother : Header.ofName? other with
    | some field =>
        -- The field is read before any member, so the new slot cannot be seen.
        rw [get?_of_header hother, get?_of_header hother,
          if_neg fun hboth => Option.some_ne_none _ hboth.2]
        cases field <;> rfl
    | none =>
        rw [get?_of_plain hother, ← get?_dynamic_of_not_mem hother hmem, Entries.get?_append,
          Entries.get?_eq_none_iff.2 hmem, Entries.get?_cons, if_pos rfl, Option.none_or,
          Option.some_or]
        -- The slot is the last one and has the value that the dynamic member had.
        cases Entries.get? other n.dynamic with
        | none => rw [if_pos ⟨rfl, rfl⟩, Option.getD_none]
        | some v => rw [if_neg fun hboth => Option.some_ne_none v hboth.2, Option.getD_some]
  · rw [if_neg fun hboth => hne hboth.1]
    apply get?_congr (by rintro (_ | _ | _) <;> rfl)
    rw [Entries.get?_append, Entries.get?_cons, if_neg (Ne.symm hne), Entries.get?_nil,
      Option.or_none, Entries.get?_erase hn.dynamic, if_neg (Ne.symm hne)]

/-- What declaring a member gives. -/
theorem WellFormed.declareGives (hn : n.WellFormed) (name : String) :
    n.DeclareGives name (n.declare name) := by
  by_cases hmem : name ∈ Entries.keys n.declared
  · rw [declare_of_mem hmem]
    refine ⟨?_, fun _ => rfl, fun _ => rfl, fun hnot => absurd hmem hnot, ?_⟩
    · intro other
      rw [if_neg]
      rintro ⟨rfl, hnone⟩
      exact get?_ne_none_of_mem hmem hnone
    · exact (Entries.filter_of_not_mem fun hdynamic => hn.oneSide name hdynamic hmem).symm
  · have hheader := header_declare n name
    rw [declare_of_not_mem hmem] at hheader ⊢
    exact ⟨hn.get?_promoted hmem, hheader, fun hdeclared => absurd hdeclared hmem, fun _ => rfl,
      Entries.erase_eq_filter hn.dynamic name⟩

/-- A write that is accepted answers with what was read before and changes this reading only; one
that is refused leaves the node, also when it is made in place. Removing a member resets or drops
it, and declaring one makes a slot for it, with no other change in values or order. -/
theorem access_changes_one_member (hn : n.Reachable) (name : String) (value : Value) :
    (∀ previous m, n.set name value = .ok (previous, m) → n.SetGives name value previous m) ∧
    (∀ error, n.set name value = .error error → write name value n = .error error n) ∧
    n.RemoveGives name (n.remove name).1 (n.remove name).2 ∧
    n.DeclareGives name (n.declare name) := by
  refine ⟨?_, ?_, hn.wellFormed.removeGives name, hn.wellFormed.declareGives name⟩
  · intro previous m h
    exact setGives_of_set h
  · intro error h
    rw [write_eq, h, inPlace]

/-- A girder with a slot of the id's name and a note. -/
def sampleGirder : Node :=
  { withMembers "Kit.Girder" ["height", "id"] with dynamic := [("note", .bool true)] }

theorem reachable_sampleGirder : sampleGirder.Reachable := by
  have hnote : (withMembers "Kit.Girder" ["height", "id"]).set "note" (.bool true) =
      .ok (none, sampleGirder) :=
    rfl
  exact (reachable_withMembers "Kit.Girder" ["height", "id"]).set hnote

/-- The note is written and nothing else. A number is refused as the id, and removing the id resets
the slot of its name. -/
theorem access_sampleGirder :
    sampleGirder.Reachable ∧
      (∃ m, sampleGirder.set "note" .null = .ok (some (.bool true), m) ∧
        m.get? "note" = some .null ∧ m.get? "height" = sampleGirder.get? "height" ∧
        m.memberNames .dynamic = ["note"]) ∧
      write "id" (.int 5) sampleGirder = .error (.headerType .id) sampleGirder ∧
      (sampleGirder.remove "id").1 = some .null ∧
      (sampleGirder.remove "id").2.members .declared = [("height", .null), ("id", .null)] := by
  obtain ⟨hwrite, -⟩ := access_changes_one_member reachable_sampleGirder "note" .null
  obtain ⟨-, hrefused, hremove, -⟩ := access_changes_one_member reachable_sampleGirder "id" (.int 5)
  have hset : sampleGirder.set "note" .null =
      .ok (some (.bool true), { sampleGirder with dynamic := [("note", .null)] }) := rfl
  have hnote := hwrite _ _ hset
  refine ⟨reachable_sampleGirder, ⟨_, hset, hnote.written, hnote.others "height" (by decide),
    hnote.dynamicNames⟩, hrefused _ rfl, ?_, hremove.declared⟩
  exact (hremove.answer .null).2 (.tail _ (.head _))

end Node

end ObjectGraph
