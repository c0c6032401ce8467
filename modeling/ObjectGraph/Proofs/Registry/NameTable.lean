import Mathlib.Data.List.Induction
import ObjectGraph.Proofs.Entries.Updates
import ObjectGraph.Proofs.Result
import ObjectGraph.Registry.Index

/-!
# The table of names

Canonical names are entered one after the other; the first name that is taken already is a clash,
and without a clash the table holds every canonical name (`addCanonical_cases`). The former names
that come afterwards take nothing away: a name that is free before belongs to the first type that
lists it (`get?_addDeprecated`).
-/

namespace ObjectGraph

/-- The first clash in a list of names with the types that claim them: the second type is the first
one in the list that claims a name that was claimed before, and the first type is the one that
did. -/
inductive FirstClash (claims : List (String × TypeHandle)) : RegistryError → Prop
  | mk {before between after : List (String × TypeHandle)} {name : String}
      {first second : TypeHandle} :
      claims = before ++ (name, first) :: between ++ (name, second) :: after →
      (Entries.keys (before ++ (name, first) :: between)).Nodup →
      FirstClash claims (.duplicateTypeName name first second)

/-- The name that a type is stored under, with the type. -/
def Descriptor.claim (d : Descriptor) : String × TypeHandle :=
  (d.canonicalName, d.handle)

namespace NameTable

/-- The canonical names of the descriptors. -/
abbrev ofList (descriptors : List Descriptor) : NameTable :=
  Entries.keyed Descriptor.canonicalName descriptors

theorem keys_claims (descriptors : List Descriptor) :
    Entries.keys (descriptors.map Descriptor.claim) = descriptors.map (·.canonicalName) := by
  simp [Entries.keys, Descriptor.claim, Function.comp_def]

section Canonical

variable {descriptors : List Descriptor} {e : RegistryError}

/-- Canonical names are added one list after the other. -/
theorem addCanonical_append (table : NameTable) (xs ys : List Descriptor) :
    addCanonical table (xs ++ ys) =
      addCanonical table xs >>= fun written => addCanonical written ys := by
  induction xs generalizing table with
  | nil => rfl
  | cons d rest ih =>
      rw [List.cons_append, addCanonical, addCanonical]
      split
      · rfl
      · exact ih _

/-- Names that differ are all added. -/
theorem addCanonical_of_nodup (h : (descriptors.map (·.canonicalName)).Nodup) :
    addCanonical [] descriptors = .ok (ofList descriptors) := by
  -- The descriptors are entered from the first to the last, so the last one is split off.
  induction descriptors using List.reverseRecOn with
  | nil => rfl
  | append_singleton before d ih =>
      rw [List.map_append, List.nodup_append] at h
      have hfree : Entries.get? d.canonicalName (ofList before) = none := by
        rw [Entries.get?_eq_none_iff, Entries.keys_keyed]
        intro hmem
        exact h.2.2 _ hmem _ (List.mem_singleton_self _) rfl
      rw [addCanonical_append, ih h.1, ok_bind, addCanonical, hfree]
      simp [addCanonical, Entries.keyed]

/-- Entering names stops at the first descriptor whose name is taken. -/
theorem addCanonical_of_taken {before after : List Descriptor} {first second : Descriptor}
    (h : (before.map (·.canonicalName)).Nodup) (hfirst : first ∈ before)
    (hname : first.canonicalName = second.canonicalName) :
    addCanonical [] (before ++ second :: after) =
      .error (.duplicateTypeName second.canonicalName first.handle second.handle) := by
  have htaken : Entries.get? second.canonicalName (ofList before) = some first := by
    apply Entries.get?_of_mem (by rwa [Entries.keys_keyed])
    rw [← hname]
    exact List.mem_map_of_mem hfirst
  rw [addCanonical_append, addCanonical_of_nodup h, ok_bind, addCanonical, htaken]

/-- Names are distinct, or one of them is the first that stands there a second time. -/
theorem nodup_or_exists_taken (descriptors : List Descriptor) :
    (descriptors.map (·.canonicalName)).Nodup ∨
      ∃ before first second after, descriptors = before ++ second :: after ∧
        (before.map (·.canonicalName)).Nodup ∧ first ∈ before ∧
        first.canonicalName = second.canonicalName := by
  induction descriptors using List.reverseRecOn with
  | nil => exact .inl List.nodup_nil
  | append_singleton rest d ih =>
      rcases ih with hnodup | ⟨before, first, second, after, rfl, h⟩
      · by_cases hmem : d.canonicalName ∈ rest.map (·.canonicalName)
        · obtain ⟨first, hfirst, hname⟩ := List.mem_map.1 hmem
          exact .inr ⟨rest, first, d, [], rfl, hnodup, hfirst, hname⟩
        · left
          rw [List.map_append, List.map_singleton]
          exact hnodup.append (List.nodup_singleton _) (List.disjoint_singleton.2 hmem)
      · exact .inr ⟨before, first, second, after ++ [d], by simp, h⟩

/-- A name that is taken clashes with the descriptor that took it. -/
theorem firstClash_of_taken {before after : List Descriptor} {first second : Descriptor}
    (h : (before.map (·.canonicalName)).Nodup) (hfirst : first ∈ before)
    (hname : first.canonicalName = second.canonicalName) :
    FirstClash ((before ++ second :: after).map Descriptor.claim)
      (.duplicateTypeName second.canonicalName first.handle second.handle) := by
  obtain ⟨start, between, rfl⟩ := List.append_of_mem hfirst
  have hsplit : (start ++ first :: between ++ second :: after).map Descriptor.claim =
      start.map Descriptor.claim ++
        (second.canonicalName, first.handle) :: between.map Descriptor.claim ++
        (second.canonicalName, second.handle) :: after.map Descriptor.claim := by
    simp [Descriptor.claim, hname]
  refine .mk hsplit ?_
  rw [← keys_claims] at h
  simpa [Descriptor.claim, hname] using h

/-- Entering the canonical names enters all of them, or fails with a clash. -/
theorem addCanonical_cases (descriptors : List Descriptor) :
    ((descriptors.map (·.canonicalName)).Nodup ∧
      addCanonical [] descriptors = .ok (ofList descriptors)) ∨
    ∃ e, FirstClash (descriptors.map Descriptor.claim) e ∧
      addCanonical [] descriptors = .error e := by
  rcases nodup_or_exists_taken descriptors with
    hnodup | ⟨before, first, second, after, rfl, hnodup, hfirst, hname⟩
  · exact .inl ⟨hnodup, addCanonical_of_nodup hnodup⟩
  · exact .inr ⟨_, firstClash_of_taken hnodup hfirst hname,
      addCanonical_of_taken hnodup hfirst hname⟩

/-- Entering the canonical names fails with the first clash. -/
theorem addCanonical_eq_error_iff :
    addCanonical [] descriptors = .error e ↔ FirstClash (descriptors.map Descriptor.claim) e := by
  constructor
  · intro h
    rcases addCanonical_cases descriptors with ⟨-, hresult⟩ | ⟨f, hclash, hresult⟩
    · rw [hresult] at h
      cases h
    · rw [hresult] at h
      cases h
      exact hclash
  · rintro @⟨before, between, after, name, first, second, hclaims, hnodup⟩
    obtain ⟨start, rest, rfl, hstart, hrest⟩ := List.map_eq_append_iff.1 hclaims
    obtain ⟨d, after', rfl, hd, -⟩ := List.map_eq_cons_iff.1 hrest
    obtain ⟨f, hf, hclaim⟩ : ∃ f ∈ start, Descriptor.claim f = (name, first) := by
      rw [← List.mem_map, hstart]
      simp
    obtain ⟨hname, rfl⟩ := Prod.mk.inj hd
    obtain ⟨hsame, rfl⟩ := Prod.mk.inj hclaim
    rw [← hstart, keys_claims] at hnodup
    rw [addCanonical_of_taken hnodup hf (hsame.trans hname.symm), hname]

end Canonical

section Deprecated

variable (name : String) (table : NameTable)

/-- Adding new names for one type: a name that is taken keeps its type. -/
theorem get?_foldl_insertNew (d : Descriptor) (names : List String) :
    Entries.get? name (names.foldl (fun table name => Entries.insertNew name d table) table) =
      (Entries.get? name table).or (if name ∈ names then some d else none) := by
  induction names generalizing table with
  | nil => simp
  | cons other rest ih =>
      rw [List.foldl_cons, ih, Entries.get?_insertNew, Option.or_assoc]
      by_cases hother : other = name
      · simp [hother]
      · simp [hother, Ne.symm hother]

/-- A name that is not taken yet belongs to the first descriptor that lists it as a former one. -/
theorem get?_addDeprecated (descriptors : List Descriptor) :
    Entries.get? name (addDeprecated table descriptors) =
      (Entries.get? name table).or (descriptors.find? fun d => name ∈ d.deprecatedNames) := by
  rw [addDeprecated]
  induction descriptors generalizing table with
  | nil => simp
  | cons d rest ih =>
      rw [List.foldl_cons, ih, get?_foldl_insertNew, Option.or_assoc]
      by_cases hname : name ∈ d.deprecatedNames
      · simp [hname]
      · simp [hname]

end Deprecated

end NameTable

/-- A list has one first clash at most. -/
theorem FirstClash.unique {claims : List (String × TypeHandle)} {e f : RegistryError}
    (he : FirstClash claims e) (hf : FirstClash claims f) : e = f := by
  -- Any list of claims is that of some descriptors, and entering these has one result.
  obtain ⟨descriptors, rfl⟩ : ∃ descriptors : List Descriptor,
      descriptors.map Descriptor.claim = claims :=
    ⟨claims.map fun claim => ⟨claim.1, claim.2, [], [], []⟩,
      by simp [Descriptor.claim, Function.comp_def]⟩
  rw [← NameTable.addCanonical_eq_error_iff] at he hf
  rw [he] at hf
  exact Except.error.inj hf

end ObjectGraph
