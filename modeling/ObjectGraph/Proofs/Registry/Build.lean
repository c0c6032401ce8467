import Mathlib.Data.List.Forall2
import ObjectGraph.Proofs.Registry.NameTable
import ObjectGraph.Proofs.Registry.ParentChain
import ObjectGraph.Registry

/-!
# Building the index

What a registry that is not initialized does with a list of modules, said of the definitions that
the modules make known (`Module.definitions`) and of the ends of their chains of parents. A
definition that is not abstract is at fault when its chain comes back to a type, or when the chain
reaches the root and the definition has no name. The first fault is reported; without a fault, the
first clash of names is (`FirstClash`); and without either the index holds the definitions that are
not abstract and derive from the root, in their order (`Registry.build_exact`).
-/

namespace ObjectGraph

namespace Definitions

section Faults

variable (ds : List TypeDefinition)

/-- What is wrong with a definition. -/
inductive Fault (d : TypeDefinition) : RegistryError → Prop
  | cycle : d.isAbstract = false → EndsIn ds d .cycle → Fault d (.inheritanceCycle d.handle)
  | identity :
      d.isAbstract = false → EndsIn ds d .root → d.typeName = none →
        Fault d (.missingTypeIdentity d.handle)

/-- The fault of the first definition in a list that has one. -/
inductive FirstFault : List TypeDefinition → RegistryError → Prop
  | here {d : TypeDefinition} {rest : List TypeDefinition} {e : RegistryError} :
      Fault ds d e → FirstFault (d :: rest) e
  | later {d : TypeDefinition} {rest : List TypeDefinition} {e : RegistryError} :
      (∀ other, ¬ Fault ds d other) → FirstFault rest e → FirstFault (d :: rest) e

/-- The definitions of types that have nodes: not abstract, and derived from the root. -/
def IsModel (d : TypeDefinition) : Prop :=
  d.isAbstract = false ∧ EndsIn ds d .root

open Classical in
/-- Those of a list of definitions that are indexed, in their order. -/
noncomputable def models (l : List TypeDefinition) : List TypeDefinition :=
  l.filter fun d => IsModel ds d

/-- The names that definitions are stored under, with their types. -/
def claims (l : List TypeDefinition) : List (String × TypeHandle) :=
  l.filterMap fun d => d.typeName.map fun name => (name, d.handle)

/-- What a descriptor has from its definition: name, handle and former names, and its ancestry and
properties from the chain up to the root. -/
structure Describes (descriptor : Descriptor) (d : TypeDefinition) : Prop where
  typeName : d.typeName = some descriptor.canonicalName
  handle : descriptor.handle = d.handle
  deprecatedNames : descriptor.deprecatedNames = d.deprecatedNames
  chain : ∃ path e, Climbs ds d path e ∧ e.handle = TypeHandle.root ∧
    descriptor.ancestry = Descriptor.ancestryOf (d :: path).reverse d descriptor.canonicalName ∧
    descriptor.properties = Descriptor.propertiesOf (d :: path).reverse

end Faults

section Describe

variable {ds : List TypeDefinition} {d : TypeDefinition}

/-- A definition has at most one fault. -/
theorem Fault.unique (hds : (ds.map (·.handle)).Nodup) (hd : d ∈ ds) {e f : RegistryError}
    (he : Fault ds d e) (hf : Fault ds d f) : e = f := by
  cases he with
  | cycle _ hends =>
      cases hf with
      | cycle => rfl
      | identity _ hends' => cases hends.unique hds hd hends'
  | identity _ hends =>
      cases hf with
      | cycle _ hends' => cases hends.unique hds hd hends'
      | identity => rfl

/-- A list of definitions has at most one first fault. -/
theorem FirstFault.unique (hds : (ds.map (·.handle)).Nodup) {l : List TypeDefinition} (hl : l ⊆ ds)
    {e f : RegistryError} (he : FirstFault ds l e) (hf : FirstFault ds l f) : e = f := by
  induction he with
  | here h =>
      cases hf with
      | here h' => exact h.unique hds (List.cons_subset.1 hl).1 h'
      | later hfree => exact absurd h (hfree _)
  | later hfree _ ih =>
      cases hf with
      | here h' => exact absurd h' (hfree _)
      | later _ hrest => exact ih (List.cons_subset.1 hl).2 hrest

/-- The first fault is the fault of one of the definitions. -/
theorem FirstFault.exists_fault {l : List TypeDefinition} {e : RegistryError}
    (h : FirstFault ds l e) : ∃ d ∈ l, Fault ds d e := by
  induction h with
  | here hfault => exact ⟨_, List.mem_cons_self, hfault⟩
  | later _ _ ih =>
      obtain ⟨d, hd, hfault⟩ := ih
      exact ⟨d, List.mem_cons_of_mem _ hd, hfault⟩

/-- A definition is at fault, left out or described. -/
theorem ofDefinition?_cases (hds : (ds.map (·.handle)).Nodup) (hd : d ∈ ds) :
    (∃ e, Fault ds d e ∧ Descriptor.ofDefinition? (ofList ds) d = .error e) ∨
    ((∀ e, ¬ Fault ds d e) ∧ ¬ IsModel ds d ∧ Descriptor.ofDefinition? (ofList ds) d = .ok none) ∨
    ((∀ e, ¬ Fault ds d e) ∧ IsModel ds d ∧ ∃ descriptor, Describes ds descriptor d ∧
      Descriptor.ofDefinition? (ofList ds) d = .ok (some descriptor)) := by
  rw [Descriptor.ofDefinition?]
  cases habstract : d.isAbstract with
  | true =>
      refine .inr (.inl ⟨?_, ?_, rfl⟩)
      · rintro e (⟨hconcrete, -⟩ | ⟨hconcrete, -, -⟩) <;> rw [habstract] at hconcrete <;>
          cases hconcrete
      · rintro ⟨hconcrete, -⟩
        rw [habstract] at hconcrete
        cases hconcrete
  | false =>
      rw [if_neg Bool.false_ne_true]
      rcases lineage_cases hds (d := d) with ⟨path, e, hclimbs, hroot, hresult⟩ | ⟨hends, hresult⟩ |
        ⟨hends, hresult⟩
      · have hends : EndsIn ds d .root := .root hclimbs hroot
        rw [hresult, ok_bind]
        cases hname : d.typeName with
        | none => exact .inl ⟨_, .identity habstract hends hname, rfl⟩
        | some name =>
            refine .inr (.inr ⟨?_, ⟨habstract, hends⟩, _, ⟨hname, rfl, rfl, ?_⟩, rfl⟩)
            · rintro e (⟨-, hcycle⟩ | ⟨-, -, hnone⟩)
              · cases hends.unique hds hd hcycle
              · rw [hname] at hnone
                cases hnone
            · exact ⟨path, e, hclimbs, hroot, rfl, rfl⟩
      · rw [hresult, ok_bind]
        refine .inr (.inl ⟨?_, ?_, rfl⟩)
        · rintro e (⟨-, hother⟩ | ⟨-, hother, -⟩) <;> cases hends.unique hds hd hother
        · rintro ⟨-, hother⟩
          cases hends.unique hds hd hother
      · rw [hresult]
        exact .inl ⟨_, .cycle habstract hends, rfl⟩

theorem ofDefinitions_cons (known : Definitions) (d : TypeDefinition) (rest : List TypeDefinition) :
    Descriptor.ofDefinitions known (d :: rest) =
      Descriptor.ofDefinition? known d >>= fun found =>
        Descriptor.ofDefinitions known rest >>= fun others => pure (found.toList ++ others) := rfl

/-- The descriptors of a list of definitions fail with the first fault, and without a fault there is
one for every indexed definition. -/
theorem ofDefinitions_cases (hds : (ds.map (·.handle)).Nodup) {l : List TypeDefinition}
    (hl : l ⊆ ds) :
    (∃ e, FirstFault ds l e ∧ Descriptor.ofDefinitions (ofList ds) l = .error e) ∨
    ((∀ e, ¬ FirstFault ds l e) ∧ ∃ descriptors,
      Descriptor.ofDefinitions (ofList ds) l = .ok descriptors ∧
        List.Forall₂ (Describes ds) descriptors (models ds l)) := by
  induction l with
  | nil => exact .inr ⟨by rintro e ⟨⟩, [], rfl, .nil⟩
  | cons d rest ih =>
      obtain ⟨hd, hrest⟩ := List.cons_subset.1 hl
      rw [ofDefinitions_cons]
      rcases ofDefinition?_cases hds hd with ⟨e, hfault, hresult⟩ | ⟨hfree, hout, hresult⟩ |
        ⟨hfree, hin, descriptor, hdescribes, hresult⟩
      · exact .inl ⟨e, .here hfault, by rw [hresult]; rfl⟩
      all_goals
        rw [hresult, ok_bind]
        rcases ih hrest with ⟨e, hfault, hothers⟩ | ⟨hclear, others, hothers, hall⟩
        · exact .inl ⟨e, .later hfree hfault, by rw [hothers]; rfl⟩
        have hclear' : ∀ e, ¬ FirstFault ds (d :: rest) e := by
          rintro e (h | ⟨-, h⟩)
          · exact hfree e h
          · exact hclear e h
        rw [hothers, ok_bind]
      · refine .inr ⟨hclear', others, rfl, ?_⟩
        rwa [models, List.filter_cons_of_neg (by simpa using hout)]
      · refine .inr ⟨hclear', descriptor :: others, rfl, ?_⟩
        rw [models, List.filter_cons_of_pos (by simpa using hin)]
        exact .cons hdescribes hall

/-- What the descriptors claim is what the definitions claim. -/
theorem claims_of_describes {descriptors : List Descriptor} {l : List TypeDefinition}
    (h : List.Forall₂ (Describes ds) descriptors l) :
    descriptors.map Descriptor.claim = claims l := by
  induction h with
  | nil => rfl
  | cons hd _ ih =>
      rw [List.map_cons, ih, claims, claims, List.filterMap_cons_some (b := Descriptor.claim _)]
      rw [hd.typeName, Option.map_some, Descriptor.claim, hd.handle]

theorem exists_describes {descriptors : List Descriptor} {l : List TypeDefinition}
    (h : List.Forall₂ (Describes ds) descriptors l) {descriptor : Descriptor}
    (hmem : descriptor ∈ descriptors) : ∃ d ∈ l, Describes ds descriptor d :=
  exists_related_of_mem h.flip hmem

theorem handles_of_describes {descriptors : List Descriptor} {l : List TypeDefinition}
    (h : List.Forall₂ (Describes ds) descriptors l) :
    descriptors.map (·.handle) = l.map (·.handle) := by
  induction h with
  | nil => rfl
  | cons hd _ ih => rw [List.map_cons, List.map_cons, hd.handle, ih]

end Describe

/-- The root's definition comes first, whatever the modules say about the root. -/
theorem exists_definitions_eq_cons (modules : List Module) :
    ∃ rest, Module.definitions modules = TypeDefinition.root :: rest := by
  rw [Module.definitions, List.eraseDupsBy_cons]
  exact ⟨_, rfl⟩

/-- The root's definition is indexed, and it comes first among those that are. -/
theorem exists_models_eq_cons (modules : List Module) :
    ∃ rest, models (Module.definitions modules) (Module.definitions modules) =
      TypeDefinition.root :: rest := by
  have hends : ∀ ds, IsModel ds TypeDefinition.root := fun ds => ⟨rfl, .root (.here _) rfl⟩
  obtain ⟨rest, hrest⟩ := exists_definitions_eq_cons modules
  rw [models, hrest, List.filter_cons_of_pos (by simpa using hends _)]
  exact ⟨_, rfl⟩

end Definitions

namespace Index

open Definitions

/-- What an index holds that was built from a list of modules. -/
structure IsBuilt (modules : List Module) (index : Index) : Prop where
  /-- The descriptors are those of the indexed definitions, in the order of the definitions. -/
  describes : List.Forall₂ (Describes (Module.definitions modules)) index.descriptors
    (models (Module.definitions modules) (Module.definitions modules))
  distinct : (index.descriptors.map (·.canonicalName)).Nodup
  names : index.names = NameTable.addDeprecated (NameTable.ofList index.descriptors)
    index.descriptors
  fallback : Entries.get? Name.rootType index.names = some index.fallback
  modules : index.modules = moduleNames modules

/-- The root has the first descriptor. -/
theorem exists_root_descriptor {modules : List Module} {descriptors : List Descriptor}
    (hdescribes : List.Forall₂ (Describes (Module.definitions modules)) descriptors
      (models (Module.definitions modules) (Module.definitions modules))) :
    ∃ root others, descriptors = root :: others ∧
      Describes (Module.definitions modules) root TypeDefinition.root := by
  obtain ⟨rest, hmodels⟩ := exists_models_eq_cons modules
  rw [hmodels] at hdescribes
  cases hdescribes with
  | cons hroot _ => exact ⟨_, _, rfl, hroot⟩

/-- The root's name is in the table. -/
theorem exists_fallback {modules : List Module} {descriptors : List Descriptor}
    (hdescribes : List.Forall₂ (Describes (Module.definitions modules)) descriptors
      (models (Module.definitions modules) (Module.definitions modules))) :
    ∃ fallback, Entries.get? Name.rootType
      (NameTable.addDeprecated (NameTable.ofList descriptors) descriptors) = some fallback := by
  obtain ⟨root, others, rfl, hroot⟩ := exists_root_descriptor hdescribes
  have hname : root.canonicalName = Name.rootType := (Option.some.inj hroot.typeName).symm
  refine ⟨root, ?_⟩
  rw [NameTable.get?_addDeprecated, NameTable.ofList, Entries.keyed, List.map_cons,
    Entries.get?_cons, if_pos hname, Option.some_or]

/-- Building fails with the first fault, or else with the first clash, or else gives an index. -/
theorem build_cases (modules : List Module) :
    (∃ e, FirstFault (Module.definitions modules) (Module.definitions modules) e ∧
      build modules = .error e) ∨
    ((∀ e, ¬ FirstFault (Module.definitions modules) (Module.definitions modules) e) ∧
      ∃ e, FirstClash
        (claims (models (Module.definitions modules) (Module.definitions modules))) e ∧
        build modules = .error e) ∨
    ((∀ e, ¬ FirstFault (Module.definitions modules) (Module.definitions modules) e) ∧
      (∀ e, ¬ FirstClash
        (claims (models (Module.definitions modules) (Module.definitions modules))) e) ∧
      ∃ index, IsBuilt modules index ∧ build modules = .ok index) := by
  rw [build, ofModules_eq, Entries.values_keyed]
  rcases ofDefinitions_cases (Module.nodup_handles modules) (List.Subset.refl _) with
    ⟨e, hfault, hresult⟩ | ⟨hclear, descriptors, hresult, hdescribes⟩
  · exact .inl ⟨e, hfault, by rw [hresult]; rfl⟩
  rw [hresult, ok_bind, ← claims_of_describes hdescribes]
  rcases NameTable.addCanonical_cases descriptors with
    ⟨hdistinct, htable⟩ | ⟨e, hclash, hfails⟩
  · have hfree : ∀ e, ¬ FirstClash (descriptors.map Descriptor.claim) e := by
      intro e hclash
      rw [NameTable.addCanonical_eq_error_iff.2 hclash] at htable
      cases htable
    obtain ⟨fallback, hfallback⟩ := exists_fallback hdescribes
    refine .inr (.inr ⟨hclear, hfree, ⟨descriptors, _, fallback, moduleNames modules⟩,
      ⟨hdescribes, hdistinct, rfl, hfallback, rfl⟩, ?_⟩)
    rw [htable, ok_bind]
    dsimp only
    rw [hfallback]
    rfl
  · exact .inr (.inl ⟨hclear, e, hclash, by rw [hfails]; rfl⟩)

/-- Building fails for no reason but the first fault and the first clash. -/
theorem build_eq_error_iff {modules : List Module} {e : RegistryError} :
    build modules = .error e ↔
      FirstFault (Module.definitions modules) (Module.definitions modules) e ∨
      (∀ f, ¬ FirstFault (Module.definitions modules) (Module.definitions modules) f) ∧
        FirstClash
          (claims (models (Module.definitions modules) (Module.definitions modules))) e := by
  constructor
  · intro h
    rcases build_cases modules with ⟨f, hfault, hresult⟩ | ⟨hclear, f, hclash, hresult⟩ |
      ⟨-, -, index, -, hresult⟩ <;> rw [hresult] at h <;> cases h
    · exact .inl hfault
    · exact .inr ⟨hclear, hclash⟩
  · rintro (hfault | ⟨hclear, hclash⟩)
    · rcases build_cases modules with ⟨f, hfault', hresult⟩ | ⟨hclear, -⟩ | ⟨hclear, -⟩
      · rw [hresult, hfault.unique (Module.nodup_handles modules) (List.Subset.refl _) hfault']
      · exact absurd hfault (hclear e)
      · exact absurd hfault (hclear e)
    · rcases build_cases modules with ⟨f, hfault, -⟩ | ⟨-, f, hclash', hresult⟩ | ⟨-, hfree, -⟩
      · exact absurd hfault (hclear f)
      · rw [hresult, hclash.unique hclash']
      · exact absurd hclash (hfree e)

/-- What a successful build leaves. -/
theorem isBuilt_of_build {modules : List Module} {index : Index} (h : build modules = .ok index) :
    IsBuilt modules index := by
  rcases build_cases modules with ⟨e, -, hresult⟩ | ⟨-, e, -, hresult⟩ |
    ⟨-, -, built, hbuilt, hresult⟩
  · rw [h] at hresult
    cases hresult
  · rw [h] at hresult
    cases hresult
  · rw [h] at hresult
    cases hresult
    exact hbuilt

end Index

namespace Registry

open Definitions

/-- A registry that is not initialized publishes what the modules build. -/
theorem build_of_uninitialized {r : Registry} (h : r.isInitialized = false)
    (modules : List Module) : r.build modules = (Index.build modules).map r.publish := by
  have hnone : r.published = none := by
    rw [isInitialized] at h
    exact Option.not_isSome_iff_eq_none.1 (Bool.eq_false_iff.1 h)
  rw [build, types, hnone]
  rfl

theorem types_publish (r : Registry) (index : Index) : (r.publish index).types = .ok index := by
  simp [types, publish, edition?]

/-- Every known definition has a chain of parents that ends in one way. A registry that is not
initialized refuses a list of modules with the first fault among the definitions, or, if there is
none, with the first clash of names among those that are indexed; it refuses it for no other reason.
Otherwise it publishes an index whose descriptors describe, one by one and in order, the definitions
that are not abstract and derive from the root; the first is the root's, and no type has two. -/
theorem build_exact (r : Registry) (hr : r.isInitialized = false) (modules : List Module) :
    let ds := Module.definitions modules
    (∀ d ∈ ds, ∃! ending, EndsIn ds d ending) ∧
    (∀ e, r.build modules = .error e ↔
      FirstFault ds ds e ∨
        (∀ fault, ¬ FirstFault ds ds fault) ∧ FirstClash (claims (models ds ds)) e) ∧
    ((∀ fault, ¬ FirstFault ds ds fault) → (∀ clash, ¬ FirstClash (claims (models ds ds)) clash) →
      ∃ index registry, r.build modules = .ok registry ∧ registry.types = .ok index ∧
        List.Forall₂ (Describes ds) index.descriptors (models ds ds) ∧
        index.descriptors.head?.map (·.handle) = some TypeHandle.root ∧
        (index.descriptors.map (·.handle)).Nodup) := by
  intro ds
  have hds := Module.nodup_handles modules
  rw [build_of_uninitialized hr]
  refine ⟨fun d hd => existsUnique_endsIn hds hd, ?_, ?_⟩
  · intro e
    rw [← Index.build_eq_error_iff]
    cases Index.build modules <;> simp [Except.map]
  · intro hclear hfree
    rcases Index.build_cases modules with ⟨f, hfault, -⟩ | ⟨-, f, hclash, -⟩ |
      ⟨-, -, index, hbuilt, hresult⟩
    · exact absurd hfault (hclear f)
    · exact absurd hclash (hfree f)
    · refine ⟨index, r.publish index, by rw [hresult]; rfl, types_publish r index,
        hbuilt.describes, ?_, ?_⟩
      · obtain ⟨rest, hmodels⟩ := exists_models_eq_cons modules
        have hhandles := handles_of_describes hbuilt.describes
        rw [hmodels] at hhandles
        rw [← List.head?_map, hhandles]
        rfl
      · rw [handles_of_describes hbuilt.describes]
        exact hds.sublist (List.filter_sublist.map _)

end Registry

/-- A module that is not scanned, a type without a parent, and two types that derive from each
other. The second module of the same name would break the loop, but it is not read. -/
def Module.loopedKit : List Module :=
  [{ name := "Drafts", scannable := false
     types := [{ handle := ⟨13, "Draft"⟩, parent := some TypeHandle.root }] },
   { name := "Kit"
     types := [{ handle := ⟨14, "Orphan"⟩ },
       { handle := ⟨3, "Door"⟩, typeName := some "Kit.Door", parent := some ⟨8, "Frame"⟩ },
       { handle := ⟨8, "Frame"⟩, typeName := some "Kit.Frame", parent := some ⟨3, "Door"⟩ }] },
   { name := "Kit"
     types := [
       { handle := ⟨8, "Frame"⟩, typeName := some "Kit.Frame", parent := some TypeHandle.root }] }]

/-- Doors and frames derive from each other; the first of the two is reported. -/
theorem Registry.build_loopedKit :
    ({} : Registry).isInitialized = false ∧
      ({} : Registry).build Module.loopedKit = .error (.inheritanceCycle ⟨3, "Door"⟩) ∧
      Definitions.FirstFault (Module.definitions Module.loopedKit)
        (Module.definitions Module.loopedKit) (.inheritanceCycle ⟨3, "Door"⟩) := by
  have hbuild : ({} : Registry).build Module.loopedKit =
      .error (.inheritanceCycle ⟨3, "Door"⟩) := by
    decide +kernel
  refine ⟨rfl, hbuild, ?_⟩
  rcases ((build_exact {} rfl Module.loopedKit).2.1 _).1 hbuild with hfault | ⟨-, hclash⟩
  · exact hfault
  · cases hclash

/-! ## What an index holds

The facts that every index has which was built from a list of modules, whatever the modules are.
They say what the names and the handles stand for, and that the list of types begins with the root,
which is the type that unknown chains are read as (`IsBuilt.exists_descriptors_eq`). What is proved
of resolution, of layouts and of names is proved from them, and not from the way in which an index
is built.
-/

namespace Index

open Definitions

variable {modules : List Module} {index : Index} {d : Descriptor}

section Names

/-- A name is looked up among the canonical names, and then among the former ones. -/
theorem IsBuilt.lookup_eq (h : IsBuilt modules index) (name : String) :
    index.lookup name = (index.descriptors.find? fun d => d.canonicalName == name).or
      (index.descriptors.find? fun d => name ∈ d.deprecatedNames) := by
  rw [lookup, h.names, NameTable.get?_addDeprecated, NameTable.ofList, Entries.get?_keyed]

/-- A canonical name is looked up as its own type, whatever other types list it as a former name. -/
theorem IsBuilt.lookup_canonicalName (h : IsBuilt modules index) (hd : d ∈ index.descriptors) :
    index.lookup d.canonicalName = some d := by
  have hfound : (index.descriptors.find? fun e => e.canonicalName == d.canonicalName) = some d := by
    rw [Entries.find?_eq_some_iff_of_unique (Entries.unique_of_nodup_map h.distinct _)]
    exact ⟨hd, beq_self_eq_true _⟩
  rw [h.lookup_eq, hfound, Option.some_or]

/-- Every answer of the index is one of its types. -/
theorem IsBuilt.mem_of_lookup (h : IsBuilt modules index) {name : String}
    (hd : index.lookup name = some d) : d ∈ index.descriptors := by
  rw [h.lookup_eq, Option.or_eq_some_iff] at hd
  rcases hd with hcanonical | ⟨-, hformer⟩
  · exact List.mem_of_find?_eq_some hcanonical
  · exact List.mem_of_find?_eq_some hformer

end Names

section Handles

/-- No two types of an index have the same handle. -/
theorem IsBuilt.nodup_handles (h : IsBuilt modules index) :
    (index.descriptors.map (·.handle)).Nodup := by
  rw [handles_of_describes h.describes]
  exact (Module.nodup_handles modules).sublist (List.filter_sublist.map _)

theorem IsBuilt.byHandle_eq_some_iff (h : IsBuilt modules index) {handle : TypeHandle} :
    index.byHandle handle = some d ↔ d ∈ index.descriptors ∧ d.handle = handle := by
  rw [byHandle, Entries.find?_eq_some_iff_of_unique
    (Entries.unique_of_nodup_map h.nodup_handles handle), beq_iff_eq]

end Handles

section Chains

/-- The canonical name of a type ends its ancestry. -/
theorem IsBuilt.exists_ancestry (h : IsBuilt modules index) (hd : d ∈ index.descriptors) :
    ∃ ancestors, d.ancestry = ancestors ++ [d.canonicalName] := by
  obtain ⟨e, -, hdescribes⟩ := exists_describes h.describes hd
  obtain ⟨path, f, -, -, hancestry, -⟩ := hdescribes.chain
  rw [hancestry, Descriptor.ancestryOf]
  split
  · exact ⟨[], rfl⟩
  · rename_i hne
    refine ⟨(path.reverse.filter (·.handle ≠ TypeHandle.root)).filterMap (·.typeName), ?_⟩
    simp [hne, hdescribes.typeName]

/-- The properties of a type have one accessor each. -/
theorem IsBuilt.nodup_properties (h : IsBuilt modules index) (hd : d ∈ index.descriptors) :
    (Entries.keys d.properties).Nodup := by
  obtain ⟨e, -, hdescribes⟩ := exists_describes h.describes hd
  obtain ⟨path, f, -, -, -, hproperties⟩ := hdescribes.chain
  rw [hproperties, Descriptor.propertiesOf]
  exact Entries.nodup_keys_foldl_insertNew _ _ List.nodup_nil

end Chains

section Fallback

/-- The first type is the root's, and it is the fallback. -/
theorem IsBuilt.exists_descriptors_eq (h : IsBuilt modules index) :
    ∃ others, index.descriptors = index.fallback :: others ∧
      Describes (Module.definitions modules) index.fallback TypeDefinition.root := by
  obtain ⟨root, others, hlist, hroot⟩ := exists_root_descriptor h.describes
  have hname : root.canonicalName = Name.rootType := (Option.some.inj hroot.typeName).symm
  -- The root's name is looked up as the root, and the fallback is what is looked up under it.
  have hlookup := h.lookup_canonicalName (d := root) (by rw [hlist]; exact List.mem_cons_self)
  rw [hname, lookup, h.fallback] at hlookup
  obtain rfl := Option.some.inj hlookup
  exact ⟨others, hlist, hroot⟩

/-- The list of types begins with the fallback. -/
theorem IsBuilt.head?_descriptors (h : IsBuilt modules index) :
    index.descriptors.head? = some index.fallback := by
  obtain ⟨others, hlist, -⟩ := h.exists_descriptors_eq
  rw [hlist, List.head?_cons]

theorem IsBuilt.fallback_mem (h : IsBuilt modules index) : index.fallback ∈ index.descriptors :=
  List.mem_of_mem_head? h.head?_descriptors

/-- The fallback is the type of the root. -/
theorem IsBuilt.describes_fallback (h : IsBuilt modules index) :
    Describes (Module.definitions modules) index.fallback TypeDefinition.root := by
  obtain ⟨-, -, hroot⟩ := h.exists_descriptors_eq
  exact hroot

/-- The root has no former names. -/
theorem IsBuilt.fallback_of_root (h : IsBuilt modules index) :
    index.fallback.canonicalName = Name.rootType ∧ index.fallback.deprecatedNames = [] :=
  ⟨(Option.some.inj h.describes_fallback.typeName).symm, h.describes_fallback.deprecatedNames⟩

/-- The root has no members. -/
theorem IsBuilt.properties_fallback (h : IsBuilt modules index) :
    index.fallback.properties = [] := by
  obtain ⟨path, e, hclimbs, -, -, hproperties⟩ := h.describes_fallback.chain
  cases hclimbs with
  | here => exact hproperties
  | up hparent _ =>
      rw [parentOf?_root rfl] at hparent
      cases hparent

/-- The root's name is the name of one type, the fallback. -/
theorem IsBuilt.isRoot_iff (h : IsBuilt modules index) (hd : d ∈ index.descriptors) :
    d.isRoot = true ↔ d = index.fallback := by
  rw [Descriptor.isRoot, beq_iff_eq]
  constructor
  · intro hname
    exact List.inj_on_of_nodup_map h.distinct hd h.fallback_mem
      (hname.trans h.fallback_of_root.1.symm)
  · rintro rfl
    exact h.fallback_of_root.1

end Fallback

end Index

end ObjectGraph
