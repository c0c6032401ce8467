import ObjectGraph.Proofs.Binary64.Nearest
import ObjectGraph.Proofs.Document.SameTree
import ObjectGraph.Proofs.Identity.Finite
import ObjectGraph.Proofs.Materialize.RoundTrip

/-!
# What is read is suitable

Every value that is read from an ordered document suits the index that it was read by
(`Index.suits_of_materializes`): the members of a node that was filled come from its entries or are
the null members that it started with (`Index.fill_members`). All floats in such a value are finite,
so it has a content whatever is in it (`Index.Suits.exists_canonicalTree`).
-/

namespace ObjectGraph

/-- Writing adds no entry but the one that is written. -/
theorem Entries.mem_of_mem_insert {κ α : Type} [DecidableEq κ] {k : κ} {a : α}
    {entries : List (κ × α)} {entry : κ × α} (h : entry ∈ insert k a entries) :
    entry = (k, a) ∨ entry ∈ entries := by
  induction entries with
  | nil => exact .inl (List.mem_singleton.1 h)
  | cons first rest ih =>
      rw [insert] at h
      split at h
      · rcases List.mem_cons.1 h with heq | hrest
        · exact .inl heq
        · exact .inr (List.mem_cons_of_mem _ hrest)
      · rcases List.mem_cons.1 h with rfl | hrest
        · exact .inr List.mem_cons_self
        · exact (ih hrest).imp_right (List.mem_cons_of_mem _)

/-- A member after a write is the written one or was there before. -/
theorem Node.mem_members_of_set {n m : Node} {name : String} {value : Value}
    {previous : Option Value} (h : n.set name value = .ok (previous, m)) {member : String × Value}
    (hmem : member ∈ m.members .all) : member = (name, value) ∨ member ∈ n.members .all := by
  rw [members, List.mem_append] at hmem ⊢
  obtain ⟨-, ⟨header, -, hset⟩ | ⟨-, -, rfl⟩ | ⟨-, -, -, rfl⟩⟩ := set_cases h
  · obtain ⟨hdeclared, hdynamic, -⟩ := setHeader_eq_ok hset
    rw [hdeclared, hdynamic] at hmem
    exact .inr hmem
  · rcases hmem with hdeclared | hdynamic
    · exact (Entries.mem_of_mem_insert hdeclared).imp_right .inl
    · exact .inr (.inr hdynamic)
  · rcases hmem with hdeclared | hdynamic
    · exact .inr (.inl hdeclared)
    · exact (Entries.mem_of_mem_insert hdynamic).imp_right .inr

namespace Index

variable {index : Index}

/-- The members of a filled node are values of the entries, or members that it started with. -/
theorem fill_members {place : List Nat} {i : Nat} {entries : List (String × Document)} {n m : Node}
    (h : index.fill place i entries n = .ok m) :
    ∀ member ∈ m.members .all, member ∈ n.members .all ∨
      ∃ entry ∈ entries, index.Materializes entry.2 member.2 := by
  induction entries generalizing i n with
  | nil =>
      cases h
      exact fun member hmember => .inl hmember
  | cons entry rest ih =>
      obtain ⟨key, d⟩ := entry
      intro member hmember
      by_cases hkey : key = Header.typeName.name
      · rw [fill, if_pos hkey] at h
        refine (ih h member hmember).imp_right ?_
        rintro ⟨entry, hentry, hvalue⟩
        exact ⟨entry, List.mem_cons_of_mem _ hentry, hvalue⟩
      · obtain ⟨v, previous, written, hv, hset, h⟩ := fill_cons_eq_ok hkey h
        rcases ih h member hmember with hwritten | ⟨entry, hentry, hvalue⟩
        · rcases Node.mem_members_of_set hset hwritten with rfl | hstart
          · exact .inr ⟨(key, d), List.mem_cons_self, _, hv⟩
          · exact .inl hstart
        · exact .inr ⟨entry, List.mem_cons_of_mem _ hentry, hvalue⟩

/-- Before it is filled, every member of a node is null. -/
theorem null_of_mem_instantiateAs {chain : String} {member : String × Value}
    (h : member ∈ (index.instantiateAs chain).members .all) : member.2 = .null := by
  obtain ⟨name, v⟩ := member
  obtain ⟨hdynamic, hdeclared⟩ := Node.withMembers_members (index.resolve chain).discriminator
    (Entries.keys (index.resolve chain).properties)
  have hkeys := (reachable_instantiateAs index chain).wellFormed.declared
  rw [Node.members, List.mem_append] at h
  rcases h with hmem | hmem
  · have hget := Entries.get?_of_mem hkeys hmem
    rw [instantiateAs, Descriptor.instantiate] at hget
    dsimp only at hget
    rw [hdeclared] at hget
    split at hget
    · exact (Option.some.inj hget).symm
    · cases hget
  · rw [instantiateAs, Descriptor.instantiate] at hmem
    dsimp only at hmem
    rw [hdynamic] at hmem
    cases hmem

/-- Only a text is read as a text. -/
theorem Materializes.asString?_eq {d : Document} {v : Value} (h : index.Materializes d v) :
    v.asString? = d.asString? := by
  obtain ⟨place, h⟩ := h
  cases becomes_of_materializeAt h with
  | integer n =>
      rw [Value.ofInteger]
      split <;> rfl
  | null | bool | float | string | array | map | node => rfl

/-- A node that was filled suits the index, if the values of its entries do. -/
theorem suits_filled {place : List Nat} {i : Nat} {entries : List (String × Document)}
    {chain : String} {m : Node} (hkeys : (Entries.keys entries).Nodup)
    (hfill : index.fill place i entries (index.instantiateAs chain) = .ok m)
    (h : ∀ entry ∈ entries, ∀ v, index.Materializes entry.2 v → index.Suits v) (handle : Handle) :
    index.Suits (.node handle m) := by
  have hfilled := fill_eq_ok hkeys hfill
  refine .node (hfilled.reachable (reachable_instantiateAs index chain)) ?_ ?_
  · intro name
    rw [hfilled.typeName_eq]
    exact hfilled.mem_declared_iff
  · intro member hmember
    rcases fill_members hfill member hmember with hstart | ⟨entry, hentry, hvalue⟩
    · rw [null_of_mem_instantiateAs hstart]
      exact .null
    · exact h entry hentry _ hvalue

/-- What is read from an ordered document suits the index. -/
theorem suits_of_materializes (index : Index) {d : Document} (hd : d.Ordered) :
    ∀ v, index.Materializes d v → index.Suits v := by
  induction hd with
  | null =>
      rintro v ⟨place, h⟩
      cases h
      exact .null
  | bool b =>
      rintro v ⟨place, h⟩
      cases h
      exact .bool b
  | string s =>
      rintro v ⟨place, h⟩
      cases h
      exact .string s
  | float x finite =>
      rintro v ⟨place, h⟩
      cases h
      exact .float finite
  | integer n lower upper =>
      rintro v ⟨place, h⟩
      cases h
      rw [Value.ofInteger]
      split
      · exact .int _
      · -- The nearest double of an integer in range is finite.
        rename_i hlarge
        exact .float (Binary64.isNearest_ofInt (Int.not_lt.1 hlarge) upper).finite
  | array _ ih =>
      rintro v ⟨place, h⟩
      cases becomes_of_materializeAt h with
      | array hvalues =>
          refine .list ?_
          intro value hvalue
          obtain ⟨item, hitem, hread⟩ :=
            exists_related_of_mem (materializeItems_eq_ok hvalues) hvalue
          exact ih item hitem value hread
  | @object entries hkeys _ ih =>
      rintro v ⟨place, h⟩
      cases becomes_of_materializeAt h with
      | map hchain hvalues =>
          have hall := materializeEntries_eq_ok hvalues
          refine .map ?_ ?_ ?_
          · rw [← Entries.keys_of_forall₂ hall]
            exact hkeys.nodup_keys
          · intro s hs
            -- A text under the name of the type chain is one in the document, where there is none.
            have hrel := Entries.get?_of_forall₂ hall Header.typeName.name
            rw [hs] at hrel
            generalize hget : Entries.get? Header.typeName.name entries = found at hrel
            cases hrel with
            | some hread =>
                rw [Document.typeChain?, hget, Option.bind_some, ← hread.asString?_eq] at hchain
                cases hchain
          · intro value hvalue
            obtain ⟨entry, hentry, -, hread⟩ := exists_related_of_mem hall hvalue
            exact ih entry hentry _ hread
      | node _ hfill => exact suits_filled hkeys.nodup_keys hfill ih _

end Index

/-! ## Contents -/

/-- A suitable value is finite. -/
theorem Index.Suits.finite {index : Index} {v : Value} (h : index.Suits v) : v.Finite := by
  induction h with
  | null => exact .null
  | bool b => exact .bool b
  | int n => exact .int n
  | float finite => exact .float finite
  | string s => exact .string s
  | list _ ih => exact .list ih
  | map _ _ _ ih => exact .map ih
  | node _ _ _ ih => exact .node ih

/-- A suitable value has a content. -/
theorem Index.Suits.exists_canonicalTree {index : Index} {v : Value} (h : index.Suits v) :
    ∀ member, ∃ d, v.canonicalTree member = .ok d :=
  h.finite.exists_canonicalTree

end ObjectGraph
