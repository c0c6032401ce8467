import ObjectGraph.Proofs.Registry.Names

/-!
# Layouts of derived types

Every type of an index is described by itself, from its own chain of parents. Still the descriptions
fit together: the chain of a type ends with the chain of each of its ancestors
(`Climbs.reverse_eq_append`), and what is read off a chain from the root down, its members and its
names, only grows with the chain. So a derived type begins with the members of its ancestors, with
their accessors, and its type chain begins with theirs (`Index.layout_of_build`).
-/

namespace ObjectGraph

namespace Definitions

section Chains

variable {ds : List TypeDefinition} {d e f : TypeDefinition} {path rest : List TypeDefinition}

theorem Climbs.append (h : Climbs ds d path e) (h' : Climbs ds e rest f) :
    Climbs ds d (path ++ rest) f := by
  induction h with
  | here d => exact h'
  | up hparent _ ih => exact .up hparent (ih h')

/-- A way up, with its start, has its end as the last definition. -/
theorem Climbs.exists_cons_eq (h : Climbs ds d path e) : ∃ below, d :: path = below ++ [e] := by
  induction h with
  | here d => exact ⟨[], rfl⟩
  | @up d parent e path hparent _ ih =>
      obtain ⟨below, hbelow⟩ := ih
      exact ⟨d :: below, by rw [hbelow, List.cons_append]⟩

theorem Climbs.end_mem (h : Climbs ds d path e) (hd : d ∈ ds) : e ∈ ds := by
  obtain ⟨below, hbelow⟩ := h.exists_cons_eq
  have hmem : e ∈ d :: path := by
    rw [hbelow]
    exact List.mem_append_right _ (List.mem_singleton_self _)
  exact List.forall_mem_cons.2 ⟨hd, h.subset⟩ e hmem

/-- From every definition before the last one the way goes on, so none of them is the root. -/
theorem Climbs.ne_root_of_mem (h : Climbs ds d path e) {below : List TypeDefinition}
    (hbelow : d :: path = below ++ [e]) : ∀ f ∈ below, f.handle ≠ TypeHandle.root := by
  induction h generalizing below with
  | here d =>
      rw [List.self_eq_append_left.1 hbelow]
      simp
  | @up d parent e path hparent _ ih =>
      cases below with
      | nil => cases hbelow
      | cons first others =>
          obtain ⟨rfl, hothers⟩ := List.cons.inj hbelow
          exact List.forall_mem_cons.2 ⟨(parentOf?_eq_some_iff.1 hparent).1, ih hothers⟩

/-- Seen from the root, the chain of a definition begins with the chain of every definition
on it. -/
theorem Climbs.reverse_eq_append (h : Climbs ds d path e) {upper whole : List TypeDefinition}
    {top root : TypeDefinition} (hupper : Climbs ds e upper top)
    (htop : top.handle = TypeHandle.root) (hwhole : Climbs ds d whole root)
    (hroot : root.handle = TypeHandle.root) :
    ∃ lower, (d :: whole).reverse = (e :: upper).reverse ++ lower := by
  obtain ⟨below, hbelow⟩ := h.exists_cons_eq
  -- The way through the ancestor leads to the root as well, and there is only one way there.
  have hpath : whole = path ++ upper :=
    hwhole.path_eq (parentOf?_root hroot) (h.append hupper) (parentOf?_root htop)
  have hsplit : d :: whole = below ++ e :: upper := by
    rw [hpath, ← List.cons_append, hbelow, List.append_assoc, List.singleton_append]
  exact ⟨below.reverse, by rw [hsplit, List.reverse_append]⟩

/-- The definitions on the chain of a definition that are strictly below the root, from the
definition itself up. -/
def BelowRoot (ds : List TypeDefinition) (d : TypeDefinition) (below : List TypeDefinition) :
    Prop :=
  ∃ path root, Climbs ds d path root ∧ root.handle = TypeHandle.root ∧ d :: path = below ++ [root]

end Chains

end Definitions

namespace Descriptor

theorem ancestryOf_of_ne (chain : List TypeDefinition) {d : TypeDefinition} (name : String)
    (h : d.handle ≠ TypeHandle.root) :
    ancestryOf chain d name = (chain.filter (·.handle ≠ TypeHandle.root)).filterMap (·.typeName) :=
  if_neg h

/-- The members of a longer chain begin with those of the shorter one. -/
theorem propertiesOf_prefix (upper lower : List TypeDefinition) :
    propertiesOf upper <+: propertiesOf (upper ++ lower) := by
  rw [propertiesOf, propertiesOf, List.flatMap_append, List.foldl_append,
    Entries.foldl_insertNew Accessor.name (lower.flatMap (·.members))]
  exact List.prefix_append _ _

end Descriptor

namespace Definitions

section Layout

variable {ds : List TypeDefinition} {d e : TypeDefinition} {path : List TypeDefinition}
  {p c : Descriptor}

/-- A type has the members of its ancestors first, in their order. -/
theorem Describes.properties_prefix (hc : Describes ds c d) (hp : Describes ds p e)
    (h : Climbs ds d path e) : p.properties <+: c.properties := by
  obtain ⟨whole, root, hwhole, hroot, -, hproperties⟩ := hc.chain
  obtain ⟨upper, top, hupper, htop, -, hproperties'⟩ := hp.chain
  obtain ⟨lower, hlower⟩ := h.reverse_eq_append hupper htop hwhole hroot
  rw [hproperties, hproperties', hlower]
  exact Descriptor.propertiesOf_prefix _ _

/-- The chain of a type continues those of its ancestors below the root. -/
theorem Describes.ancestry_prefix (hc : Describes ds c d) (hp : Describes ds p e)
    (h : Climbs ds d path e) (he : e.handle ≠ TypeHandle.root) : p.ancestry <+: c.ancestry := by
  obtain ⟨whole, root, hwhole, hroot, hancestry, -⟩ := hc.chain
  obtain ⟨upper, top, hupper, htop, hancestry', -⟩ := hp.chain
  obtain ⟨lower, hlower⟩ := h.reverse_eq_append hupper htop hwhole hroot
  -- What derives from something below the root is below the root as well.
  have hd : d.handle ≠ TypeHandle.root := by
    cases h with
    | here => exact he
    | up hparent _ => exact (parentOf?_eq_some_iff.1 hparent).1
  rw [hancestry, hancestry', hlower, Descriptor.ancestryOf_of_ne _ _ hd,
    Descriptor.ancestryOf_of_ne _ _ he, List.filter_append, List.filterMap_append]
  exact List.prefix_append _ _

/-- The ancestry of a type below the root is the names of the definitions below the root on its
chain. -/
theorem Describes.exists_belowRoot (hc : Describes ds c d) (hd : d.handle ≠ TypeHandle.root) :
    ∃ below, BelowRoot ds d below ∧ c.ancestry = below.reverse.filterMap (·.typeName) := by
  obtain ⟨path, root, hclimbs, hroot, hancestry, -⟩ := hc.chain
  obtain ⟨below, hbelow⟩ := hclimbs.exists_cons_eq
  refine ⟨below, ⟨path, root, hclimbs, hroot, hbelow⟩, ?_⟩
  -- Leaving out what has the root's handle leaves out the end of the way and nothing else.
  have hkept : below.reverse.filter (·.handle ≠ TypeHandle.root) = below.reverse := by
    apply List.filter_eq_self.2
    intro f hf
    exact decide_eq_true (hclimbs.ne_root_of_mem hbelow f (List.mem_reverse.1 hf))
  rw [hancestry, Descriptor.ancestryOf_of_ne _ _ hd, hbelow, List.reverse_append,
    List.reverse_singleton, List.singleton_append,
    List.filter_cons_of_neg (by simpa using hroot), hkept]

end Layout

end Definitions

namespace Index

open Definitions

section Built

variable {modules : List Module} {index : Index} {d : Descriptor} {e : TypeDefinition}

/-- An indexed type is described by the one definition that has its handle. -/
theorem IsBuilt.describes_of_handle (h : IsBuilt modules index) (hd : d ∈ index.descriptors)
    (he : e ∈ Module.definitions modules) (hhandle : e.handle = d.handle) :
    Describes (Module.definitions modules) d e := by
  obtain ⟨other, hother, hdescribes⟩ := exists_describes h.describes hd
  have hmem : other ∈ Module.definitions modules := List.filter_sublist.subset hother
  rwa [List.inj_on_of_nodup_map (Module.nodup_handles modules) he hmem
    (hhandle.trans hdescribes.handle)]

/-- The types stored under another name than the root are those with another handle. -/
theorem IsBuilt.isRoot_eq_false_iff (h : IsBuilt modules index) (hd : d ∈ index.descriptors) :
    d.isRoot = false ↔ d.handle ≠ TypeHandle.root := by
  have hfallback : index.fallback.handle = TypeHandle.root := h.describes_fallback.handle
  rw [← Bool.not_eq_true, h.isRoot_iff hd, not_iff_not]
  constructor
  · rintro rfl
    exact hfallback
  · intro hhandle
    exact List.inj_on_of_nodup_map h.nodup_handles hd h.fallback_mem (hhandle.trans hfallback.symm)

end Built

/-- Where the chain of parents leads from the definition of one indexed type to that of another, the
members of the derived type begin with all members of the ancestor, with the same accessors and in
the same order, and its type chain begins with the ancestor's unless that is the root. The type
chain of a type below the root is made of the names of the definitions below the root on its chain,
as far as they have one, and ends with its own. -/
theorem layout_of_build {modules : List Module} {index : Index}
    (hbuild : build modules = .ok index) :
    (∀ c ∈ index.descriptors, ∀ p ∈ index.descriptors, ∀ d ∈ Module.definitions modules, ∀ path e,
      d.handle = c.handle → e.handle = p.handle → Climbs (Module.definitions modules) d path e →
        p.properties <+: c.properties ∧ (p.isRoot = false → p.ancestry <+: c.ancestry)) ∧
    ∀ c ∈ index.descriptors, c.isRoot = false →
      c.ancestry.getLast? = some c.canonicalName ∧
      ∃ d ∈ Module.definitions modules, d.handle = c.handle ∧ ∃ below,
        BelowRoot (Module.definitions modules) d below ∧
        c.ancestry = below.reverse.filterMap (·.typeName) := by
  have hbuilt := isBuilt_of_build hbuild
  constructor
  · intro c hc p hp d hd path e hdc hep hclimbs
    have hdescribes := hbuilt.describes_of_handle hc hd hdc
    have hdescribes' := hbuilt.describes_of_handle hp (hclimbs.end_mem hd) hep
    refine ⟨hdescribes.properties_prefix hdescribes' hclimbs, ?_⟩
    intro hroot
    rw [hbuilt.isRoot_eq_false_iff hp, ← hep] at hroot
    exact hdescribes.ancestry_prefix hdescribes' hclimbs hroot
  · intro c hc hroot
    rw [hbuilt.isRoot_eq_false_iff hc] at hroot
    obtain ⟨ancestors, hancestry⟩ := hbuilt.exists_ancestry hc
    obtain ⟨d, hd, hdescribes⟩ := exists_describes hbuilt.describes hc
    obtain ⟨below, hbelow, hnames⟩ := hdescribes.exists_belowRoot (hdescribes.handle ▸ hroot)
    refine ⟨by rw [hancestry, List.getLast?_concat], d, List.filter_sublist.subset hd,
      hdescribes.handle.symm, below, hbelow, hnames⟩

end Index

namespace TypeDefinition

/-- An abstract type with a name. -/
def sampleElement : TypeDefinition where
  handle := ⟨5, "Element"⟩
  typeName := some "Kit.Element"
  parent := some TypeHandle.root
  isAbstract := true
  members := [Accessor.ofName "height"]

/-- A type below the abstract one. -/
def sampleFrame : TypeDefinition where
  handle := ⟨8, "Frame"⟩
  typeName := some "Kit.Frame"
  parent := some ⟨5, "Element"⟩
  members := [Accessor.ofName "width"]

/-- An abstract type without a name that declares an inherited member once more. -/
def sampleLayer : TypeDefinition where
  handle := ⟨9, "Layer"⟩
  parent := some ⟨8, "Frame"⟩
  isAbstract := true
  members := [Accessor.detached "height", Accessor.ofName "depth"]

/-- A type below the one without a name; it declares an inherited member once more. -/
def sampleGlazing : TypeDefinition where
  handle := ⟨10, "Glazing"⟩
  typeName := some "Kit.Glazing"
  parent := some ⟨9, "Layer"⟩
  members := [Accessor.detached "width"]

end TypeDefinition

/-- Frames, and glazings below them with an unnamed type between. -/
def Module.glazingKit : List Module :=
  [{ name := "Kit"
     types := [TypeDefinition.sampleElement, TypeDefinition.sampleFrame, TypeDefinition.sampleLayer,
       TypeDefinition.sampleGlazing] }]

namespace Descriptor

/-- What the index holds about frames; the chain names the abstract type too. -/
def sampleFrame : Descriptor where
  canonicalName := "Kit.Frame"
  handle := ⟨8, "Frame"⟩
  ancestry := ["Kit.Element", "Kit.Frame"]
  deprecatedNames := []
  properties := [("height", Accessor.ofName "height"), ("width", Accessor.ofName "width")]

/-- What the index holds about glazings; inherited members stand as they were declared first. -/
def sampleGlazing : Descriptor where
  canonicalName := "Kit.Glazing"
  handle := ⟨10, "Glazing"⟩
  ancestry := ["Kit.Element", "Kit.Frame", "Kit.Glazing"]
  deprecatedNames := []
  properties := [("height", Accessor.ofName "height"), ("width", Accessor.ofName "width"),
    ("depth", Accessor.ofName "depth")]

end Descriptor

namespace Index

open Definitions

/-- The index of the kit of glazings, without the abstract types. -/
def glazingIndex : Index where
  descriptors := [Descriptor.sampleRoot, Descriptor.sampleFrame, Descriptor.sampleGlazing]
  names := [("Base", Descriptor.sampleRoot), ("Kit.Frame", Descriptor.sampleFrame),
    ("Kit.Glazing", Descriptor.sampleGlazing)]
  fallback := Descriptor.sampleRoot
  modules := ["Kit"]

/-- Glazings have the members of frames as frames have them, and their type chain passes over the
unnamed type. -/
theorem layout_of_glazingKit :
    build Module.glazingKit = .ok glazingIndex ∧
      Climbs (Module.definitions Module.glazingKit) TypeDefinition.sampleGlazing
        [TypeDefinition.sampleLayer, TypeDefinition.sampleFrame] TypeDefinition.sampleFrame ∧
      Descriptor.sampleFrame.properties <+: Descriptor.sampleGlazing.properties ∧
      Descriptor.sampleFrame.ancestry <+: Descriptor.sampleGlazing.ancestry ∧
      Descriptor.sampleGlazing.ancestry.getLast? = some "Kit.Glazing" := by
  have hbuild : build Module.glazingKit = .ok glazingIndex := by decide +kernel
  have hclimbs : Climbs (Module.definitions Module.glazingKit) TypeDefinition.sampleGlazing
      [TypeDefinition.sampleLayer, TypeDefinition.sampleFrame] TypeDefinition.sampleFrame :=
    .up (by decide +kernel) (.up (by decide +kernel) (.here _))
  obtain ⟨hextends, hnames⟩ := layout_of_build hbuild
  have hlayout := hextends Descriptor.sampleGlazing (by decide) Descriptor.sampleFrame (by decide)
    TypeDefinition.sampleGlazing (by decide +kernel) _ _ rfl rfl hclimbs
  exact ⟨hbuild, hclimbs, hlayout.1, hlayout.2 rfl,
    (hnames Descriptor.sampleGlazing (by decide) rfl).1⟩

end Index

end ObjectGraph
