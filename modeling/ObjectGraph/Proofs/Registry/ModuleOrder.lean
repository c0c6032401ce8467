import ObjectGraph.Proofs.Registry.Names

/-!
# The order of modules

An index is built by passes over a list, in which the first of several competing modules,
definitions or claims wins. Where nothing competes (`Module.Unambiguous`) the order of the modules
has no part in the result. The definitions that become known are the same up to order, every
definition has the same parent among them, and so the same chain, the same fault and the same
descriptor (`Definitions.SameParents`). An index has the same types then, and what it answers
depends on these alone, as every name belongs to one of them at most (`Registry.build_of_perm`). The
errors may differ: they name the first fault in order.
-/

namespace ObjectGraph

namespace Module

/-- The definitions in the modules that can be scanned. -/
def scannedTypes (modules : List Module) : List TypeDefinition :=
  (modules.filter (·.scannable)).flatMap (·.types)

/-- Nothing competes in a list of modules: they have different names, no handle but the root's is
defined twice, and no two types have a former name in common. -/
structure Unambiguous (modules : List Module) : Prop where
  names : (modules.map (·.name)).Nodup
  handles : (((scannedTypes modules).filter (·.handle ≠ TypeHandle.root)).map (·.handle)).Nodup
  formerNames : ∀ d ∈ scannedTypes modules, ∀ e ∈ scannedTypes modules, ∀ name ∈ d.deprecatedNames,
    name ∈ e.deprecatedNames → d.handle = e.handle

section Order

variable {modules other : List Module}

theorem scannedTypes_perm (h : modules.Perm other) :
    (scannedTypes modules).Perm (scannedTypes other) :=
  (h.filter _).flatMap_right _

/-- Whether modules are unambiguous does not depend on their order. -/
theorem Unambiguous.perm (hclear : Unambiguous modules) (h : modules.Perm other) :
    Unambiguous other where
  names := (h.map _).nodup_iff.1 hclear.names
  handles := (((scannedTypes_perm h).filter _).map _).nodup_iff.1 hclear.handles
  formerNames := by
    intro d hd e he
    rw [← (scannedTypes_perm h).mem_iff] at hd he
    exact hclear.formerNames d hd e he

/-- Where nothing competes, the known definitions are the root's and all others that can be
scanned. -/
theorem Unambiguous.definitions_eq (hclear : Unambiguous modules) :
    definitions modules =
      TypeDefinition.root :: (scannedTypes modules).filter (·.handle ≠ TypeHandle.root) := by
  -- The root's own definition is the first of its handle, so those in the modules are left out.
  have hothers : ((modules.filter (·.scannable)).flatMap (·.types)).filter
      (fun d => (d.handle == TypeDefinition.root.handle) = false) =
        (scannedTypes modules).filter (·.handle ≠ TypeHandle.root) := by
    apply List.filter_congr
    intro d _
    exact decide_eq_decide.2 beq_eq_false_iff_ne
  rw [definitions, Entries.eraseDupsBy_of_nodup Module.name hclear.names,
    List.eraseDupsBy_cons, hothers,
    Entries.eraseDupsBy_of_nodup TypeDefinition.handle hclear.handles]

theorem Unambiguous.definitions_perm (hclear : Unambiguous modules) (h : modules.Perm other) :
    (definitions modules).Perm (definitions other) := by
  rw [hclear.definitions_eq, (hclear.perm h).definitions_eq]
  exact ((scannedTypes_perm h).filter _).cons _

/-- A known definition with a former name stands in one of the modules. -/
theorem Unambiguous.mem_scannedTypes (hclear : Unambiguous modules) {d : TypeDefinition}
    (hd : d ∈ definitions modules) {name : String} (hname : name ∈ d.deprecatedNames) :
    d ∈ scannedTypes modules := by
  rw [hclear.definitions_eq] at hd
  rcases List.mem_cons.1 hd with rfl | hd
  · cases hname
  · exact List.mem_of_mem_filter hd

end Order

end Module

namespace Definitions

/-- Every definition has the same parent in both lists of definitions. -/
def SameParents (ds es : List TypeDefinition) : Prop :=
  ∀ d, parentOf? ds d = parentOf? es d

section SameParents

variable {ds es : List TypeDefinition} {d e : TypeDefinition} {path : List TypeDefinition}
  {c : Descriptor}

theorem sameParents_of_perm (hds : (ds.map (·.handle)).Nodup) (h : ds.Perm es) :
    SameParents ds es := by
  intro d
  have hfind : ∀ parent, (ds.find? fun e => e.handle == parent) =
      es.find? fun e => e.handle == parent := by
    intro parent
    exact Entries.find?_congr_of_unique (fun a => h.mem_iff)
      (Entries.unique_of_nodup_map hds parent)
  simp only [parentOf?, hfind]

theorem SameParents.symm (h : SameParents ds es) : SameParents es ds :=
  fun d => (h d).symm

theorem Climbs.congr (hclimbs : Climbs ds d path e) (h : SameParents ds es) :
    Climbs es d path e := by
  induction hclimbs with
  | here d => exact .here d
  | up hparent _ ih => exact .up ((h _).symm.trans hparent) ih

theorem EndsIn.congr {ending : ChainEnd} (hends : EndsIn ds d ending) (h : SameParents ds es) :
    EndsIn es d ending := by
  cases hends with
  | root hclimbs hroot => exact .root (hclimbs.congr h) hroot
  | outside hclimbs hne hend => exact .outside (hclimbs.congr h) hne ((h _).symm.trans hend)
  | cycle hclimbs hdup => exact .cycle (hclimbs.congr h) hdup

theorem Fault.congr {fault : RegistryError} (hfault : Fault ds d fault) (h : SameParents ds es) :
    Fault es d fault := by
  cases hfault with
  | cycle hconcrete hends => exact .cycle hconcrete (hends.congr h)
  | identity hconcrete hends hname => exact .identity hconcrete (hends.congr h) hname

theorem isModel_congr (h : SameParents ds es) : IsModel ds d ↔ IsModel es d :=
  and_congr_right fun _ => ⟨fun hends => hends.congr h, fun hends => hends.congr h.symm⟩

/-- What describes a definition depends on the parents only. -/
theorem Describes.congr (hc : Describes ds c d) (h : SameParents ds es) : Describes es c d where
  typeName := hc.typeName
  handle := hc.handle
  deprecatedNames := hc.deprecatedNames
  chain := by
    obtain ⟨path, e, hclimbs, hdata⟩ := hc.chain
    exact ⟨path, e, hclimbs.congr h, hdata⟩

/-- A definition is described in one way. -/
theorem Describes.unique {c' : Descriptor} (hc : Describes ds c d) (hc' : Describes ds c' d) :
    c = c' := by
  obtain ⟨path, e, hclimbs, hroot, hancestry, hproperties⟩ := hc.chain
  obtain ⟨path', e', hclimbs', hroot', hancestry', hproperties'⟩ := hc'.chain
  -- Both chains end where there is no parent, so they are the same chain.
  obtain rfl := hclimbs.path_eq (parentOf?_root hroot) hclimbs' (parentOf?_root hroot')
  have hname : c.canonicalName = c'.canonicalName :=
    Option.some.inj (hc.typeName.symm.trans hc'.typeName)
  have hsame : c.ancestry = c'.ancestry := by
    rw [hancestry, hancestry', hname]
  have hhandle := hc.handle.trans hc'.handle.symm
  have hformer := hc.deprecatedNames.trans hc'.deprecatedNames.symm
  have hmembers := hproperties.trans hproperties'.symm
  cases c
  cases c'
  rw [Descriptor.mk.injEq]
  exact ⟨hname, hhandle, hsame, hformer, hmembers⟩

theorem mem_models_iff {l : List TypeDefinition} : d ∈ models ds l ↔ d ∈ l ∧ IsModel ds d := by
  simp only [models, List.mem_filter, decide_eq_true_eq]

theorem models_perm (hperm : ds.Perm es) (h : SameParents ds es) :
    (models ds ds).Perm (models es es) := by
  -- What is indexed is the same for both; only the order in which it is listed differs.
  have hsame : models ds ds = models es ds := by
    rw [models, models, List.filter_congr]
    intro d _
    exact decide_eq_decide.2 (isModel_congr h)
  rw [hsame]
  exact hperm.filter _

theorem claims_perm {l k : List TypeDefinition} (h : l.Perm k) : (claims l).Perm (claims k) :=
  h.filterMap _

/-- There is a first fault exactly when there is any. -/
theorem exists_firstFault_iff {l : List TypeDefinition} :
    (∃ fault, FirstFault ds l fault) ↔ ∃ d ∈ l, ∃ fault, Fault ds d fault := by
  constructor
  · rintro ⟨fault, hfirst⟩
    obtain ⟨d, hd, hfault⟩ := hfirst.exists_fault
    exact ⟨d, hd, fault, hfault⟩
  · rintro ⟨d, hd, hfault⟩
    induction l with
    | nil => cases hd
    | cons first rest ih =>
        -- The first fault need not be the one that is known: an earlier definition may have one as
        -- well.
        by_cases hhere : ∃ fault, Fault ds first fault
        · obtain ⟨fault, hfault⟩ := hhere
          exact ⟨fault, .here hfault⟩
        · rcases List.mem_cons.1 hd with rfl | hd
          · exact absurd hfault hhere
          · obtain ⟨fault, hlater⟩ := ih hd
            exact ⟨fault, .later (fun other hother => hhere ⟨other, hother⟩) hlater⟩

end SameParents

end Definitions

theorem FirstClash.not_nodup {claims : List (String × TypeHandle)} {e : RegistryError}
    (h : FirstClash claims e) : ¬ (Entries.keys claims).Nodup := by
  obtain @⟨before, between, after, name, first, second, rfl, -⟩ := h
  rw [Entries.keys_append, List.nodup_append]
  rintro ⟨-, -, hdisjoint⟩
  exact hdisjoint name (by simp) name (by simp) rfl

namespace Index

open Definitions

section Built

variable {modules other : List Module} {index index' : Index}

/-- An index can be built where no definition is at fault and no two types have the same name. -/
theorem exists_build_iff (modules : List Module) :
    (∃ index, build modules = .ok index) ↔
      (∀ d ∈ Module.definitions modules, ∀ fault, ¬ Fault (Module.definitions modules) d fault) ∧
        (Entries.keys
          (claims (models (Module.definitions modules) (Module.definitions modules)))).Nodup := by
  rcases build_cases modules with ⟨e, hfault, hresult⟩ | ⟨-, e, hclash, hresult⟩ |
    ⟨hclear, -, index, hbuilt, hresult⟩
  · refine iff_of_false (by simp [hresult]) fun h => ?_
    obtain ⟨d, hd, hfault⟩ := hfault.exists_fault
    exact h.1 d hd _ hfault
  · exact iff_of_false (by simp [hresult]) fun h => hclash.not_nodup h.2
  · refine iff_of_true ⟨index, hresult⟩ ⟨?_, ?_⟩
    · intro d hd fault hfault
      obtain ⟨first, hfirst⟩ := exists_firstFault_iff.2 ⟨d, hd, fault, hfault⟩
      exact hclear first hfirst
    · rw [← claims_of_describes hbuilt.describes, NameTable.keys_claims]
      exact hbuilt.distinct

/-- The types of an index are what describes the model types among the definitions. -/
theorem IsBuilt.mem_descriptors_iff (h : IsBuilt modules index) {c : Descriptor} :
    c ∈ index.descriptors ↔
      ∃ d, d ∈ Module.definitions modules ∧ IsModel (Module.definitions modules) d ∧
        Describes (Module.definitions modules) c d := by
  constructor
  · intro hc
    obtain ⟨d, hd, hdescribes⟩ := exists_describes h.describes hc
    rw [mem_models_iff] at hd
    exact ⟨d, hd.1, hd.2, hdescribes⟩
  · rintro ⟨d, hd, hmodel, hdescribes⟩
    obtain ⟨c', hc', hdescribes'⟩ :=
      exists_related_of_mem h.describes (mem_models_iff.2 ⟨hd, hmodel⟩)
    rwa [hdescribes.unique hdescribes']

/-- No two types of an index have a former name in common, if no two definitions do. -/
theorem IsBuilt.eq_of_formerName (h : IsBuilt modules index) (hclear : Module.Unambiguous modules)
    {a b : Descriptor} (ha : a ∈ index.descriptors) (hb : b ∈ index.descriptors) {name : String}
    (hname : name ∈ a.deprecatedNames) (hname' : name ∈ b.deprecatedNames) : a = b := by
  obtain ⟨d, hd, -, hdescribes⟩ := h.mem_descriptors_iff.1 ha
  obtain ⟨e, he, -, hdescribes'⟩ := h.mem_descriptors_iff.1 hb
  rw [hdescribes.deprecatedNames] at hname
  rw [hdescribes'.deprecatedNames] at hname'
  have hhandle : d.handle = e.handle :=
    hclear.formerNames d (hclear.mem_scannedTypes hd hname) e
      (hclear.mem_scannedTypes he hname') name hname hname'
  apply List.inj_on_of_nodup_map h.nodup_handles ha hb
  rw [hdescribes.handle, hdescribes'.handle, hhandle]

/-- If unambiguous modules build an index, they do so in any order. -/
theorem exists_build_of_perm (hclear : Module.Unambiguous modules) (hperm : modules.Perm other)
    (h : ∃ index, build modules = .ok index) : ∃ index, build other = .ok index := by
  have hds := hclear.definitions_perm hperm
  have hsame := sameParents_of_perm (Module.nodup_handles modules) hds
  rw [exists_build_iff] at h ⊢
  refine ⟨?_, ?_⟩
  · intro d hd fault hfault
    exact h.1 d (hds.mem_iff.2 hd) fault (hfault.congr hsame.symm)
  · exact ((claims_perm (models_perm hds hsame)).map _).nodup_iff.1 h.2

/-- The same types are indexed in another order of the modules. -/
theorem IsBuilt.mem_descriptors_of_perm (h : IsBuilt modules index) (h' : IsBuilt other index')
    (hclear : Module.Unambiguous modules) (hperm : modules.Perm other) (c : Descriptor) :
    c ∈ index.descriptors ↔ c ∈ index'.descriptors := by
  have hds := hclear.definitions_perm hperm
  have hsame := sameParents_of_perm (Module.nodup_handles modules) hds
  rw [h.mem_descriptors_iff, h'.mem_descriptors_iff]
  constructor
  · rintro ⟨d, hd, hmodel, hdescribes⟩
    exact ⟨d, hds.mem_iff.1 hd, (isModel_congr hsame).1 hmodel, hdescribes.congr hsame⟩
  · rintro ⟨d, hd, hmodel, hdescribes⟩
    exact ⟨d, hds.mem_iff.2 hd, (isModel_congr hsame).2 hmodel, hdescribes.congr hsame.symm⟩

/-- What a name stands for depends on the types of the index alone, if no two of them compete for
it. -/
theorem IsBuilt.lookup_of_perm (h : IsBuilt modules index) (h' : IsBuilt other index')
    (hclear : Module.Unambiguous modules) (hperm : modules.Perm other) (name : String) :
    index.lookup name = index'.lookup name := by
  have hmem := h.mem_descriptors_of_perm h' hclear hperm
  have hcanonical : (index.descriptors.find? fun d => d.canonicalName == name) =
      index'.descriptors.find? fun d => d.canonicalName == name :=
    Entries.find?_congr_of_unique hmem (Entries.unique_of_nodup_map h.distinct name)
  have hformer : (index.descriptors.find? fun d => name ∈ d.deprecatedNames) =
      index'.descriptors.find? fun d => name ∈ d.deprecatedNames := by
    apply Entries.find?_congr_of_unique hmem
    intro a ha b hb hname hname'
    exact h.eq_of_formerName hclear ha hb (of_decide_eq_true hname) (of_decide_eq_true hname')
  rw [h.lookup_eq, h'.lookup_eq, hcanonical, hformer]

/-- Resolution looks at names and at the fallback only. -/
theorem resolve_congr (hlookup : ∀ name, index.lookup name = index'.lookup name)
    (hfallback : index.fallback = index'.fallback) (chain : String) :
    index.resolve chain = index'.resolve chain := by
  have hhit : index.hit? = index'.hit? := by
    funext segment
    have hvariant : index.lookup = index'.lookup := funext hlookup
    rw [hit?, hit?, hvariant]
  rw [resolve, resolve, hhit, hfallback]

/-- A chain resolves to the same type, whatever the order of unambiguous modules was. -/
theorem IsBuilt.resolve_of_perm (h : IsBuilt modules index) (h' : IsBuilt other index')
    (hclear : Module.Unambiguous modules) (hperm : modules.Perm other) (chain : String) :
    index.resolve chain = index'.resolve chain := by
  have hlookup := h.lookup_of_perm h' hclear hperm
  apply resolve_congr hlookup
  -- The fallback is itself looked up, under the root's name.
  have hroot := hlookup Name.rootType
  rw [lookup, lookup, h.fallback, h'.fallback] at hroot
  exact Option.some.inj hroot

end Built

end Index

namespace Registry

/-- Let the modules of a list have different names, let no handle but the root's be defined twice,
and let no two types have a former name in common. Then a registry that is not initialized accepts
the list if it accepts it in any other order; and the indexes that it publishes look up every name
and resolve every type chain alike. -/
theorem build_of_perm (r : Registry) (hr : r.isInitialized = false) {modules other : List Module}
    (hclear : Module.Unambiguous modules) (hperm : modules.Perm other) :
    ((∃ s, r.build modules = .ok s) ↔ ∃ s, r.build other = .ok s) ∧
    ∀ s t, r.build modules = .ok s → r.build other = .ok t →
      ∃ index index', s.types = .ok index ∧ t.types = .ok index' ∧
        (∀ name, index.lookup name = index'.lookup name) ∧
        ∀ chain, index.resolve chain = index'.resolve chain := by
  have haccepts : ∀ list, (∃ s, r.build list = .ok s) ↔ ∃ index, Index.build list = .ok index := by
    intro list
    simp [build_of_uninitialized hr, map_eq_ok_iff]
  constructor
  · rw [haccepts, haccepts]
    exact ⟨Index.exists_build_of_perm hclear hperm,
      Index.exists_build_of_perm (hclear.perm hperm) hperm.symm⟩
  · intro s t hs ht
    rw [build_of_uninitialized hr, map_eq_ok_iff] at hs ht
    obtain ⟨index, hindex, rfl⟩ := hs
    obtain ⟨index', hindex', rfl⟩ := ht
    have hbuilt := Index.isBuilt_of_build hindex
    have hbuilt' := Index.isBuilt_of_build hindex'
    exact ⟨index, index', types_publish r index, types_publish r index',
      hbuilt.lookup_of_perm hbuilt' hclear hperm, hbuilt.resolve_of_perm hbuilt' hclear hperm⟩

end Registry

/-- Fences in one module, and in another one wickets, which derive from them and have a former
name. -/
def Module.fenceKits : List Module :=
  [{ name := "Fences"
     types := [{
       handle := ⟨11, "Fence"⟩
       typeName := some "Kit.Fence"
       parent := some TypeHandle.root
       members := [Accessor.ofName "height"] }] },
   { name := "Wickets"
     types := [{
       handle := ⟨12, "Wicket"⟩
       typeName := some "Kit.Wicket"
       parent := some ⟨11, "Fence"⟩
       deprecatedNames := ["Kit.SmallGate"] }] }]

namespace Descriptor

/-- What either index holds about fences. -/
def sampleFence : Descriptor where
  canonicalName := "Kit.Fence"
  handle := ⟨11, "Fence"⟩
  ancestry := ["Kit.Fence"]
  deprecatedNames := []
  properties := [("height", Accessor.ofName "height")]

/-- What either index holds about wickets; they inherit the member of fences. -/
def sampleWicket : Descriptor where
  canonicalName := "Kit.Wicket"
  handle := ⟨12, "Wicket"⟩
  ancestry := ["Kit.Fence", "Kit.Wicket"]
  deprecatedNames := ["Kit.SmallGate"]
  properties := [("height", Accessor.ofName "height")]

end Descriptor

namespace Index

open Descriptor

/-- The index of the modules in the order given. -/
def fenceIndex : Index where
  descriptors := [sampleRoot, sampleFence, sampleWicket]
  names := [("Base", sampleRoot), ("Kit.Fence", sampleFence), ("Kit.Wicket", sampleWicket),
    ("Kit.SmallGate", sampleWicket)]
  fallback := sampleRoot
  modules := ["Fences", "Wickets"]

/-- The index of the same modules in the other order. -/
def wicketIndex : Index :=
  { fenceIndex with
    descriptors := [sampleRoot, sampleWicket, sampleFence]
    names := [("Base", sampleRoot), ("Kit.Wicket", sampleWicket), ("Kit.Fence", sampleFence),
      ("Kit.SmallGate", sampleWicket)] }

end Index

/-- With the modules in the other order the types are discovered in another order, and wickets
before the type they derive from; what they are looked up and resolved as is the same. -/
theorem Registry.build_of_perm_fenceKits :
    ({} : Registry).isInitialized = false ∧ Module.Unambiguous Module.fenceKits ∧
      Module.fenceKits.Perm Module.fenceKits.reverse ∧
      ({} : Registry).build Module.fenceKits = .ok (({} : Registry).publish Index.fenceIndex) ∧
      ({} : Registry).build Module.fenceKits.reverse =
        .ok (({} : Registry).publish Index.wicketIndex) ∧
      (∀ name, Index.fenceIndex.lookup name = Index.wicketIndex.lookup name) ∧
      ∀ chain, Index.fenceIndex.resolve chain = Index.wicketIndex.resolve chain := by
  have hclear : Module.Unambiguous Module.fenceKits :=
    { names := by decide, handles := by decide, formerNames := by decide }
  have hperm : Module.fenceKits.Perm Module.fenceKits.reverse := (List.reverse_perm _).symm
  have hbuild : ({} : Registry).build Module.fenceKits =
      .ok (({} : Registry).publish Index.fenceIndex) := by
    decide +kernel
  have hbuild' : ({} : Registry).build Module.fenceKits.reverse =
      .ok (({} : Registry).publish Index.wicketIndex) := by
    decide +kernel
  obtain ⟨index, index', hindex, hindex', hlookup, hresolve⟩ :=
    (build_of_perm {} rfl hclear hperm).2 _ _ hbuild hbuild'
  cases hindex
  cases hindex'
  exact ⟨rfl, hclear, hperm, hbuild, hbuild', hlookup, hresolve⟩

end ObjectGraph
