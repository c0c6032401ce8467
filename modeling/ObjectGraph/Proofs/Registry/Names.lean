import ObjectGraph.Proofs.Registry.Resolution

/-!
# The names that an index answers to

An index has three parts that are made one after the other: the list of its types, the table of
names, and the type that unknown chains are read as. `Index.names_of_build` says how they agree. A
canonical name stands for its own type, whatever other types list it as a former name; any other
name stands for the first type that lists it (`IsBuilt.lookup_eq`). The table lists the canonical
names first and the remaining names in the order in which they are first claimed
(`NameTable.keys_addDeprecated`). The first type is the root, it is the only one under the root's
name, and it is the fallback; so no list of modules is refused for want of a root.
-/

namespace ObjectGraph

namespace NameTable

/-- Former names come behind the names that are there, each once, in the order of the first
claims. -/
theorem keys_addDeprecated (table : NameTable) (descriptors : List Descriptor) :
    Entries.keys (addDeprecated table descriptors) = Entries.keys table ++
      ((descriptors.flatMap (·.deprecatedNames)).filter
        fun name => name ∉ Entries.keys table).eraseDups := by
  -- The two loops are one, over the claims of all types.
  have hflat : addDeprecated table descriptors =
      (descriptors.flatMap fun d => d.deprecatedNames.map fun name => (name, d)).foldl
        (fun table claim => Entries.insertNew claim.1 claim.2 table) table := by
    simp only [addDeprecated, List.foldl_flatMap, List.foldl_map]
  rw [hflat, Entries.keys_foldl_insertNew Prod.fst Prod.snd]
  simp [List.map_flatMap, Function.comp_def]

end NameTable

namespace Definitions

theorem root_mem_definitions (modules : List Module) :
    TypeDefinition.root ∈ Module.definitions modules := by
  obtain ⟨others, hmodules⟩ := exists_definitions_eq_cons modules
  rw [hmodules]
  exact List.mem_cons_self

end Definitions

namespace Index

open Definitions

section Built

variable {modules : List Module} {index : Index} {name : String}

/-- A name that is nobody's canonical name belongs to the first type that lists it. -/
theorem IsBuilt.lookup_of_not_mem (h : IsBuilt modules index)
    (hname : name ∉ index.descriptors.map (·.canonicalName)) :
    index.lookup name = index.descriptors.find? fun d => name ∈ d.deprecatedNames := by
  have hnone : (index.descriptors.find? fun d => d.canonicalName == name) = none := by
    rw [List.find?_eq_none]
    intro d hd heq
    exact hname (List.mem_map.2 ⟨d, hd, beq_iff_eq.1 heq⟩)
  rw [h.lookup_eq, hnone, Option.none_or]

theorem IsBuilt.keys_names (h : IsBuilt modules index) :
    Entries.keys index.names = index.descriptors.map (·.canonicalName) ++
      ((index.descriptors.flatMap (·.deprecatedNames)).filter
        fun name => name ∉ index.descriptors.map (·.canonicalName)).eraseDups := by
  rw [h.names, NameTable.keys_addDeprecated, Entries.keys_keyed]

theorem IsBuilt.nodup_names (h : IsBuilt modules index) : (Entries.keys index.names).Nodup := by
  rw [h.keys_names]
  refine h.distinct.append (Entries.nodup_eraseDups _) ?_
  intro name hcanonical hformer
  have hfree := List.of_mem_filter (List.mem_eraseDups.1 hformer)
  exact of_decide_eq_true hfree hcanonical

end Built

/-- No list of modules is refused because the root has no name. -/
theorem build_ne_missing_root (modules : List Module) :
    build modules ≠ .error (.missingTypeIdentity TypeHandle.root) := by
  rw [Ne, build_eq_error_iff]
  rintro (hfault | ⟨-, ⟨⟩⟩)
  obtain ⟨d, hd, hfault⟩ := hfault.exists_fault
  generalize hhandle : TypeHandle.root = handle at hfault
  cases hfault with
  | identity _ _ hnone =>
      -- The one definition with the root's handle is the root's own, and that has a name.
      obtain rfl := List.inj_on_of_nodup_map (Module.nodup_handles modules)
        (root_mem_definitions modules) hd hhandle
      cases hnone

/-- No list of modules is refused for want of a root. In the index of a list of modules, the
canonical name of a type stands for that type, and any other name for the first type that lists it
as a former one, if there is one. The table has every name that is answered once: the canonical
names in the order of the types, and then the remaining former names in the order of their first
claims. A handle finds the one type that has it. The fallback is the first type, it has the root's
handle, and no other type has the root's name. -/
theorem names_of_build (modules : List Module) :
    build modules ≠ .error (.missingTypeIdentity TypeHandle.root) ∧
    ∀ index, build modules = .ok index →
      (∀ d ∈ index.descriptors, index.lookup d.canonicalName = some d) ∧
      (∀ name, name ∉ index.descriptors.map (·.canonicalName) →
        index.lookup name = index.descriptors.find? fun d => name ∈ d.deprecatedNames) ∧
      (Entries.keys index.names = index.descriptors.map (·.canonicalName) ++
        ((index.descriptors.flatMap (·.deprecatedNames)).filter
          fun name => name ∉ index.descriptors.map (·.canonicalName)).eraseDups) ∧
      (Entries.keys index.names).Nodup ∧
      (∀ name, name ∈ Entries.keys index.names ↔ ∃ d, index.lookup name = some d) ∧
      (∀ handle d, index.byHandle handle = some d ↔ d ∈ index.descriptors ∧ d.handle = handle) ∧
      index.descriptors.head? = some index.fallback ∧ index.fallback.handle = TypeHandle.root ∧
      ∀ d ∈ index.descriptors, d.isRoot = true ↔ d = index.fallback := by
  refine ⟨build_ne_missing_root modules, ?_⟩
  intro index hbuild
  have hbuilt := isBuilt_of_build hbuild
  refine ⟨fun d hd => hbuilt.lookup_canonicalName hd,
    fun name hname => hbuilt.lookup_of_not_mem hname, hbuilt.keys_names, hbuilt.nodup_names, ?_,
    fun handle d => hbuilt.byHandle_eq_some_iff, hbuilt.head?_descriptors,
    hbuilt.describes_fallback.handle, fun d hd => hbuilt.isRoot_iff hd⟩
  intro name
  rw [lookup, Entries.mem_keys_iff_exists_get?]

end Index

/-- Doors and windows. Doors list a former name, the name of windows and the name of the root;
windows list that former name as well, and one of their own twice. -/
def Module.aliasKit : List Module :=
  [{ name := "Kit"
     types := [
       { handle := ⟨3, "Door"⟩, typeName := some "Kit.Door", parent := some TypeHandle.root
         deprecatedNames := ["Kit.Gate", "Kit.Window", "Base"] },
       { handle := ⟨4, "Window"⟩, typeName := some "Kit.Window", parent := some TypeHandle.root
         deprecatedNames := ["Kit.Pane", "Kit.Gate", "Kit.Pane"] }] }]

namespace Descriptor

/-- What the index holds about doors, with the former names that do not get through. -/
def sampleAliasDoor : Descriptor :=
  ⟨"Kit.Door", ⟨3, "Door"⟩, ["Kit.Door"], ["Kit.Gate", "Kit.Window", "Base"], []⟩

/-- What the index holds about windows. -/
def sampleAliasWindow : Descriptor :=
  ⟨"Kit.Window", ⟨4, "Window"⟩, ["Kit.Window"], ["Kit.Pane", "Kit.Gate", "Kit.Pane"], []⟩

end Descriptor

namespace Index

open Descriptor

/-- The index of doors and windows. -/
def aliasIndex : Index where
  descriptors := [sampleRoot, sampleAliasDoor, sampleAliasWindow]
  names := [("Base", sampleRoot), ("Kit.Door", sampleAliasDoor), ("Kit.Window", sampleAliasWindow),
    ("Kit.Gate", sampleAliasDoor), ("Kit.Pane", sampleAliasWindow)]
  fallback := sampleRoot
  modules := ["Kit"]

/-- Doors get the former name that both list, and neither the name of windows nor that of the
root. -/
theorem names_of_aliasKit :
    build Module.aliasKit = .ok aliasIndex ∧
      aliasIndex.lookup "Kit.Window" = some sampleAliasWindow ∧
      aliasIndex.lookup "Base" = some aliasIndex.fallback ∧
      aliasIndex.lookup "Kit.Gate" = some sampleAliasDoor ∧
      aliasIndex.byHandle ⟨4, "Window"⟩ = some sampleAliasWindow ∧
      Entries.keys aliasIndex.names =
        ["Base", "Kit.Door", "Kit.Window"] ++ ["Kit.Gate", "Kit.Pane"] := by
  have hbuild : build Module.aliasKit = .ok aliasIndex := by decide +kernel
  obtain ⟨hcanonical, hformer, hkeys, -, -, hhandle, -⟩ :=
    (names_of_build Module.aliasKit).2 _ hbuild
  refine ⟨hbuild, hcanonical sampleAliasWindow (by decide),
    hcanonical sampleRoot (by decide), ?_, ?_, ?_⟩
  · rw [hformer "Kit.Gate" (by decide)]
    rfl
  · exact (hhandle _ _).2 ⟨by decide, rfl⟩
  · rw [hkeys]
    decide +kernel

end Index

end ObjectGraph
