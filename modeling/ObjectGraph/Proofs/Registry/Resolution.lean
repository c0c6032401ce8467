import ObjectGraph.Proofs.Node.Reachable
import ObjectGraph.Proofs.Registry.Build
import ObjectGraph.Proofs.Text
import ObjectGraph.Registry

/-!
# Resolution of type chains

A type chain is resolved from its last segment on, so a name that is a segment of its own resolves
to the type that the index has for it, whatever stands before it (`Index.resolve_registered`). This
needs the name to be without a colon: an index accepts names with colons, and such a name is never
looked up as a whole (`Index.resolve_door_panel`). A chain may also be read by another index than
the one that wrote it (`Index.resolve_discriminator`).
-/

namespace ObjectGraph

/-! ## Registered names -/

namespace Index

open Definitions

variable {modules : List Module} {index : Index}

/-- A chain resolves to a type of the index, whatever it is. -/
theorem IsBuilt.mem_resolve (h : IsBuilt modules index) (chain : String) :
    index.resolve chain ∈ index.descriptors := by
  rw [resolve]
  cases hfound : (Text.segments ':' chain).reverse.findSome? index.hit? with
  | none => exact h.fallback_mem
  | some d =>
      obtain ⟨segment, -, hhit⟩ := List.exists_of_findSome?_eq_some hfound
      rw [hit?, Option.or_eq_some_iff] at hhit
      rcases hhit with hlookup | ⟨-, hvariant⟩
      · exact h.mem_of_lookup hlookup
      · obtain ⟨variant, -, hlookup⟩ := Option.bind_eq_some_iff.1 hvariant
        exact h.mem_of_lookup hlookup

theorem hit?_of_lookup {name : String} {d : Descriptor} (h : index.lookup name = some d) :
    index.hit? name = some d := by
  rw [hit?, h, Option.some_or]

/-- A chain resolves to what its last segment names, if that is known. -/
theorem resolve_of_segments {chain name : String} {front : List String} {d : Descriptor}
    (hsegments : Text.segments ':' chain = front ++ [name]) (h : index.lookup name = some d) :
    index.resolve chain = d := by
  rw [resolve, hsegments, List.reverse_append, List.reverse_singleton, List.singleton_append,
    List.findSome?_cons, hit?_of_lookup h]
  rfl

/-- If the canonical name of a type has no colon, its type chain resolves to the type itself, and so
does the type chain that its nodes carry. A name that the index answers to and that has no colon
resolves to the answer, alone and at the end of any chain. Nothing is asked of the names in front of
it. -/
theorem resolve_registered (hbuild : build modules = .ok index) :
    (∀ d ∈ index.descriptors, ':' ∉ d.canonicalName.toList →
      index.resolve d.discriminator = d ∧ index.resolve d.instantiate.typeName = d) ∧
    ∀ name d, index.lookup name = some d → ':' ∉ name.toList →
      index.resolve name = d ∧ ∀ start, index.resolve (start ++ ":" ++ name) = d := by
  have hbuilt := isBuilt_of_build hbuild
  constructor
  · intro d hd hcolon
    have hresolve : index.resolve d.discriminator = d := by
      obtain ⟨ancestors, hancestry⟩ := hbuilt.exists_ancestry hd
      obtain ⟨front, hfront⟩ := Text.exists_segments_joined hcolon ancestors
      rw [Descriptor.discriminator, hancestry]
      exact resolve_of_segments hfront (hbuilt.lookup_canonicalName hd)
    refine ⟨hresolve, ?_⟩
    rw [Descriptor.instantiate, Node.typeName_withMembers, hresolve]
  · intro name d hlookup hcolon
    constructor
    · have hsegments : Text.segments ':' name = [] ++ [name] := Text.segments_of_not_mem hcolon
      exact resolve_of_segments hsegments hlookup
    · intro start
      exact resolve_of_segments (Text.segments_append hcolon start) hlookup

end Index

/-- A wall, and a gate below it. The gate has the empty name and a former name, the wall a name with
a colon. -/
def Module.gateKit : List Module :=
  [{ name := "Kit"
     types := [
       { handle := ⟨6, "Wall"⟩, typeName := some "Kit:Wall", parent := some TypeHandle.root },
       { handle := ⟨15, "Gate"⟩, typeName := some "", parent := some ⟨6, "Wall"⟩,
         deprecatedNames := ["Kit.Gate"] }] }]

/-- A panel under a name with a colon. -/
def Module.panelKit : List Module :=
  [{ name := "Kit"
     types := [
       { handle := ⟨16, "Panel"⟩, typeName := some "Door:Panel",
         parent := some TypeHandle.root }] }]

namespace Descriptor

/-- What every index holds about the root type. -/
def sampleRoot : Descriptor := ⟨"Base", TypeHandle.root, ["Base"], [], []⟩

/-- What the index holds about the wall. -/
def sampleWall : Descriptor := ⟨"Kit:Wall", ⟨6, "Wall"⟩, ["Kit:Wall"], [], []⟩

/-- What the index holds about the gate; its chain ends in the empty name. -/
def sampleGate : Descriptor := ⟨"", ⟨15, "Gate"⟩, ["Kit:Wall", ""], ["Kit.Gate"], []⟩

/-- What the index holds about the panel. -/
def samplePanel : Descriptor := ⟨"Door:Panel", ⟨16, "Panel"⟩, ["Door:Panel"], [], []⟩

end Descriptor

namespace Index

open Descriptor

/-- The index of the kit with the gate. -/
def gateIndex : Index where
  descriptors := [sampleRoot, sampleWall, sampleGate]
  names := [("Base", sampleRoot), ("Kit:Wall", sampleWall), ("", sampleGate),
    ("Kit.Gate", sampleGate)]
  fallback := sampleRoot
  modules := ["Kit"]

/-- The index of the kit with the panel. -/
def panelIndex : Index where
  descriptors := [sampleRoot, samplePanel]
  names := [("Base", sampleRoot), ("Door:Panel", samplePanel)]
  fallback := sampleRoot
  modules := ["Kit"]

/-- The type chain of the gate ends with a colon, and the gate is found. -/
theorem resolve_gate :
    build Module.gateKit = .ok gateIndex ∧
      gateIndex.resolve "Kit:Wall:" = sampleGate ∧
        gateIndex.resolve "Yard::Kit.Gate" = sampleGate := by
  have hbuild : build Module.gateKit = .ok gateIndex := by decide +kernel
  obtain ⟨hdescriptors, hnames⟩ := resolve_registered hbuild
  refine ⟨hbuild, ?_, ?_⟩
  · exact (hdescriptors sampleGate (by decide) (by decide)).1
  · exact (hnames "Kit.Gate" sampleGate rfl (by decide)).2 "Yard:"

/-- A type whose name has a colon is indexed, and its chain, which is its name, resolves to the
root. -/
theorem resolve_door_panel :
    build Module.panelKit = .ok panelIndex ∧
      (¬ ∀ d ∈ panelIndex.descriptors, panelIndex.resolve d.discriminator = d) ∧
      ¬ ∀ name d, panelIndex.lookup name = some d → panelIndex.resolve name = d := by
  refine ⟨by decide +kernel, ?_, ?_⟩
  · intro h
    exact absurd (h samplePanel (by decide)) (by decide +kernel)
  · intro h
    exact absurd (h "Door:Panel" samplePanel rfl) (by decide +kernel)

end Index

/-! ## Types that another index resolves

The type chain that an index writes for its nodes may be read by another index, which knows only
some of the types on it. What the reader answers is said of the names alone: `Index.Knows` is one
name and the type it stands for, `Index.LastKnown` the most specific name of a chain that the reader
knows. The reader gives its fallback when it knows no name of the chain, and also when the last name
it knows is that of the root type (`Index.knows_fallback_iff`).
-/

/-- The deprecated form of a name has a dot in it. -/
theorem dot_mem_of_deprecatedVariant {name variant : String}
    (h : deprecatedVariant name = some variant) : '.' ∈ variant.toList := by
  rw [deprecatedVariant] at h
  split at h
  · cases h
  · split at h
    · cases h
    · cases h
      exact Text.mem_joined_cons_cons '.' _ _ _
  · dsimp only at h
    split at h
    · cases h
    · cases h
      exact Text.mem_joined_cons_cons '.' _ _ _

namespace Index

section Knows

variable (index : Index)

/-- The index knows a name as that of a type: it answers to the name as it stands, or else to the
deprecated form of it. -/
inductive Knows (name : String) (d : Descriptor) : Prop
  | verbatim : index.lookup name = some d → Knows name d
  | retired {variant : String} :
      index.lookup name = none → deprecatedVariant name = some variant →
        index.lookup variant = some d → Knows name d

/-- The last one of the names that the index knows, with its type. -/
inductive LastKnown (names : List String) (name : String) (d : Descriptor) : Prop
  | mk {general specific : List String} :
      names = general ++ name :: specific → index.Knows name d →
        (∀ other ∈ specific, ∀ e, ¬ index.Knows other e) → LastKnown names name d

end Knows

section Answers

variable {modules : List Module} {index : Index} {name chain : String} {names : List String}
  {d : Descriptor}

/-- A hit is a name that the index knows. -/
theorem hit?_eq_some_iff : index.hit? name = some d ↔ index.Knows name d := by
  rw [hit?, Option.or_eq_some_iff, Option.bind_eq_some_iff]
  constructor
  · rintro (hlookup | ⟨hnone, variant, hvariant, hlookup⟩)
    · exact .verbatim hlookup
    · exact .retired hnone hvariant hlookup
  · rintro (hlookup | ⟨hnone, hvariant, hlookup⟩)
    · exact .inl hlookup
    · exact .inr ⟨hnone, _, hvariant, hlookup⟩

theorem hit?_eq_none_iff : index.hit? name = none ↔ ∀ d, ¬ index.Knows name d := by
  simp only [Option.eq_none_iff_forall_ne_some, ne_eq, hit?_eq_some_iff]

/-- A name stands for one type. -/
theorem Knows.unique {e : Descriptor} (hd : index.Knows name d) (he : index.Knows name e) :
    d = e := by
  rw [← hit?_eq_some_iff] at hd he
  exact Option.some.inj (hd.symm.trans he)

theorem LastKnown.knows (h : index.LastKnown names name d) : index.Knows name d := by
  obtain ⟨-, hknows, -⟩ := h
  exact hknows

/-- The search from the end finds the last name that is known. -/
theorem findSome?_reverse_eq_some_iff :
    names.reverse.findSome? index.hit? = some d ↔ ∃ name, index.LastKnown names name d := by
  rw [List.findSome?_eq_some_iff]
  constructor
  · rintro ⟨specific, name, general, hsplit, hhit, hfree⟩
    have hnames : names = general.reverse ++ name :: specific.reverse := by
      have hreverse := congrArg List.reverse hsplit
      simpa using hreverse
    refine ⟨name, hnames, hit?_eq_some_iff.1 hhit, ?_⟩
    intro other hother
    exact hit?_eq_none_iff.1 (hfree other (List.mem_reverse.1 hother))
  · rintro ⟨name, @⟨general, specific, hsplit, hknows, hfree⟩⟩
    refine ⟨specific.reverse, name, general.reverse, by simp [hsplit],
      hit?_eq_some_iff.2 hknows, ?_⟩
    intro other hother
    exact hit?_eq_none_iff.2 (hfree other (List.mem_reverse.1 hother))

theorem findSome?_reverse_eq_none_iff :
    names.reverse.findSome? index.hit? = none ↔ ∀ name ∈ names, ∀ d, ¬ index.Knows name d := by
  simp only [List.findSome?_eq_none_iff, List.mem_reverse, hit?_eq_none_iff]

/-- The name of the root type is the root's type chain. -/
theorem IsBuilt.resolve_rootType (h : IsBuilt modules index) :
    index.resolve Name.rootType = index.fallback := by
  have hsegments : Text.segments ':' Name.rootType = [Name.rootType] := by decide
  have hhit : index.hit? Name.rootType = some index.fallback := by
    rw [hit?, lookup, h.fallback, Option.some_or]
  rw [resolve, hsegments, List.reverse_singleton, List.findSome?_cons, hhit]
  rfl

/-- Only the name of the root type is looked up as the fallback. -/
theorem IsBuilt.lookup_eq_fallback_iff (h : IsBuilt modules index) :
    index.lookup name = some index.fallback ↔ name = Name.rootType := by
  constructor
  · intro hlookup
    rw [h.lookup_eq, Option.or_eq_some_iff] at hlookup
    rcases hlookup with hcanonical | ⟨-, hformer⟩
    · have hname := List.find?_some hcanonical
      exact (beq_iff_eq.1 hname).symm.trans h.fallback_of_root.1
    · have hlisted := List.find?_some hformer
      rw [h.fallback_of_root.2] at hlisted
      simp at hlisted
  · rintro rfl
    exact h.fallback

/-- The one name that stands for the fallback is that of the root type. -/
theorem IsBuilt.knows_fallback_iff (h : IsBuilt modules index) :
    index.Knows name index.fallback ↔ name = Name.rootType := by
  constructor
  · rintro (hlookup | ⟨-, hvariant, hlookup⟩)
    · exact h.lookup_eq_fallback_iff.1 hlookup
    · have hdot := dot_mem_of_deprecatedVariant hvariant
      rw [h.lookup_eq_fallback_iff.1 hlookup] at hdot
      exact absurd hdot (by decide)
  · rintro rfl
    exact .verbatim h.fallback

/-- A chain whose segments are the names resolves to the last one of them that is known. -/
theorem resolve_of_lastKnown (hsegments : Text.segments ':' chain = names)
    (h : index.LastKnown names name d) : index.resolve chain = d := by
  rw [resolve, hsegments, findSome?_reverse_eq_some_iff.2 ⟨name, h⟩, Option.getD_some]

/-- The fallback is the answer if no name is known, or if the last name that is known is the
root's. -/
theorem IsBuilt.resolve_eq_fallback_iff (h : IsBuilt modules index)
    (hsegments : Text.segments ':' chain = names) :
    index.resolve chain = index.fallback ↔
      (∀ name ∈ names, ∀ d, ¬ index.Knows name d) ∨ ∃ d, index.LastKnown names Name.rootType d := by
  rw [resolve, hsegments, ← findSome?_reverse_eq_none_iff]
  cases hfound : names.reverse.findSome? index.hit? with
  | none => simp
  | some d =>
      obtain ⟨name, hlast⟩ := findSome?_reverse_eq_some_iff.1 hfound
      rw [Option.getD_some]
      constructor
      · rintro rfl
        obtain rfl := h.knows_fallback_iff.1 hlast.knows
        exact .inr ⟨_, hlast⟩
      · rintro (hnone | ⟨e, hroot⟩)
        · cases hnone
        · -- The search finds one type, and under the root's name that is the fallback.
          have he := findSome?_reverse_eq_some_iff.2 ⟨_, hroot⟩
          rw [hfound] at he
          cases he
          exact hroot.knows.unique (h.knows_fallback_iff.2 rfl)

end Answers

/-- The chain that one index writes for a type, if no name on it has a colon, resolves in another
index to what that index has for the last name on it that it knows. It resolves to the fallback
exactly if no name on it is known, or if the last one that is known is the name of the root type,
and in every case to a type of the index that reads it. -/
theorem resolve_discriminator {written read : List Module} {producer consumer : Index}
    (hproducer : build written = .ok producer) (hconsumer : build read = .ok consumer)
    {d : Descriptor} (hd : d ∈ producer.descriptors)
    (hcolon : ∀ name ∈ d.ancestry, ':' ∉ name.toList) :
    (∀ name e, consumer.LastKnown d.ancestry name e → consumer.resolve d.discriminator = e) ∧
    (consumer.resolve d.discriminator = consumer.fallback ↔
      (∀ name ∈ d.ancestry, ∀ e, ¬ consumer.Knows name e) ∨
        ∃ e, consumer.LastKnown d.ancestry Name.rootType e) ∧
    consumer.resolve d.discriminator ∈ consumer.descriptors := by
  have hbuilt := isBuilt_of_build hconsumer
  have hsegments : Text.segments ':' d.discriminator = d.ancestry := by
    obtain ⟨ancestors, hancestry⟩ := (isBuilt_of_build hproducer).exists_ancestry hd
    apply Text.segments_joined _ hcolon
    rw [hancestry]
    simp
  refine ⟨?_, hbuilt.resolve_eq_fallback_iff hsegments, hbuilt.mem_resolve _⟩
  intro name e hlast
  exact resolve_of_lastKnown hsegments hlast

end Index

/-- Elements, walls below them, and gables below walls. -/
def Module.gableKit : List Module :=
  [{ name := "Kit"
     types := [
       { handle := ⟨5, "Element"⟩, typeName := some "Kit.Element", parent := some TypeHandle.root },
       { handle := ⟨6, "Wall"⟩, typeName := some "Kit.Wall", parent := some ⟨5, "Element"⟩ },
       { handle := ⟨7, "Gable"⟩, typeName := some "Kit.Gable", parent := some ⟨6, "Wall"⟩ }] }]

/-- Elements, and walls under the name of a retired type. -/
def Module.retiredKit : List Module :=
  [{ name := "Kit"
     types := [
       { handle := ⟨5, "Element"⟩, typeName := some "Kit.Element", parent := some TypeHandle.root },
       { handle := ⟨6, "Wall"⟩, typeName := some "Kit.Deprecated.Wall",
         parent := some TypeHandle.root }] }]

namespace Descriptor

/-- What both indexes hold about elements. -/
def sampleElement : Descriptor := ⟨"Kit.Element", ⟨5, "Element"⟩, ["Kit.Element"], [], []⟩

/-- What the writer holds about walls. -/
def samplePlainWall : Descriptor := ⟨"Kit.Wall", ⟨6, "Wall"⟩, ["Kit.Element", "Kit.Wall"], [], []⟩

/-- What the writer holds about gables. -/
def sampleGable : Descriptor :=
  ⟨"Kit.Gable", ⟨7, "Gable"⟩, ["Kit.Element", "Kit.Wall", "Kit.Gable"], [], []⟩

/-- What the reader holds about walls. -/
def sampleRetiredWall : Descriptor :=
  ⟨"Kit.Deprecated.Wall", ⟨6, "Wall"⟩, ["Kit.Deprecated.Wall"], [], []⟩

end Descriptor

namespace Index

open Descriptor

/-- The index of the writer. -/
def gableIndex : Index where
  descriptors := [sampleRoot, sampleElement, samplePlainWall, sampleGable]
  names := [("Base", sampleRoot), ("Kit.Element", sampleElement), ("Kit.Wall", samplePlainWall),
    ("Kit.Gable", sampleGable)]
  fallback := sampleRoot
  modules := ["Kit"]

/-- The index of the reader. -/
def retiredIndex : Index where
  descriptors := [sampleRoot, sampleElement, sampleRetiredWall]
  names := [("Base", sampleRoot), ("Kit.Element", sampleElement),
    ("Kit.Deprecated.Wall", sampleRetiredWall)]
  fallback := sampleRoot
  modules := ["Kit"]

/-- A gable is read as a retired wall: the index does not know gables, it knows walls only by the
deprecated form of their name, and elements, which it knows as they are, come before walls. -/
theorem resolve_gable :
    build Module.gableKit = .ok gableIndex ∧ build Module.retiredKit = .ok retiredIndex ∧
      sampleGable ∈ gableIndex.descriptors ∧ (∀ name ∈ sampleGable.ancestry, ':' ∉ name.toList) ∧
      retiredIndex.resolve "Kit.Element:Kit.Wall:Kit.Gable" = sampleRetiredWall := by
  have hwritten : build Module.gableKit = .ok gableIndex := by decide +kernel
  have hread : build Module.retiredKit = .ok retiredIndex := by decide +kernel
  have hd : sampleGable ∈ gableIndex.descriptors := by decide
  have hcolon : ∀ name ∈ sampleGable.ancestry, ':' ∉ name.toList := by decide
  have hvariant : deprecatedVariant "Kit.Wall" = some "Kit.Deprecated.Wall" := by decide +kernel
  have hknows : retiredIndex.Knows "Kit.Wall" sampleRetiredWall := .retired rfl hvariant rfl
  have hfree : ∀ other ∈ ["Kit.Gable"], ∀ e, ¬ retiredIndex.Knows other e := by
    intro other hother
    obtain rfl := List.mem_singleton.1 hother
    exact hit?_eq_none_iff.1 (by decide +kernel)
  have hsplit : sampleGable.ancestry = ["Kit.Element"] ++ "Kit.Wall" :: ["Kit.Gable"] := rfl
  refine ⟨hwritten, hread, hd, hcolon, ?_⟩
  exact (resolve_discriminator hwritten hread hd hcolon).1 _ _ ⟨hsplit, hknows, hfree⟩

/-- The root's chain resolves to the fallback, though the name on it is known. -/
theorem resolve_known_root :
    build Module.retiredKit = .ok retiredIndex ∧
      ¬ ∀ d ∈ retiredIndex.descriptors, (∀ name ∈ d.ancestry, ':' ∉ name.toList) →
        (retiredIndex.resolve d.discriminator = retiredIndex.fallback ↔
          ∀ name ∈ d.ancestry, ∀ e, ¬ retiredIndex.Knows name e) := by
  refine ⟨by decide +kernel, ?_⟩
  intro h
  have hroot := (h sampleRoot (by decide) (by decide)).1 (by decide +kernel)
  exact hroot "Base" (by decide) sampleRoot (.verbatim rfl)

end Index

end ObjectGraph
