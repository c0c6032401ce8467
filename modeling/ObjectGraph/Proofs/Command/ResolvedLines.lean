import ObjectGraph.Command.Report
import ObjectGraph.Proofs.Registry.Resolution

/-!
# What the resolve command reports

The command learns which type a chain resolves to, but not how the type was found. It calls the
chain a fallback if the type is the fallback and no segment of the chain is its canonical name. This
is the same as that no segment is known at all (`Index.IsBuilt.fallsBack_iff`), because the fallback
has no name but the canonical one: no former name stands for it, and a deprecated form has a dot,
which the name of the root type has not.
-/

namespace ObjectGraph

namespace Index

variable {modules : List Module} {index : Index} {name chain : String}

/-- The index answers to a segment of the chain, as it stands or in its deprecated form. -/
def KnowsSegment (index : Index) (chain : String) : Prop :=
  ∃ segment ∈ Text.segments ':' chain, ∃ d, index.lookup segment = some d ∨
    ∃ variant, deprecatedVariant segment = some variant ∧ index.lookup variant = some d

/-- A name stands for a type if one of its two forms is looked up; which of them comes first does
not matter. -/
theorem exists_knows_iff : (∃ d, index.Knows name d) ↔ ∃ d, index.lookup name = some d ∨
    ∃ variant, deprecatedVariant name = some variant ∧ index.lookup variant = some d := by
  constructor
  · rintro ⟨d, hlookup | ⟨-, hvariant, hlookup⟩⟩
    · exact ⟨d, .inl hlookup⟩
    · exact ⟨d, .inr ⟨_, hvariant, hlookup⟩⟩
  · rintro ⟨d, hlookup | ⟨variant, hvariant, hlookup⟩⟩
    · exact ⟨d, .verbatim hlookup⟩
    · cases hverbatim : index.lookup name with
      | some e => exact ⟨e, .verbatim hverbatim⟩
      | none => exact ⟨d, .retired hverbatim hvariant hlookup⟩

theorem not_knowsSegment_iff :
    ¬ index.KnowsSegment chain ↔
      ∀ segment ∈ Text.segments ':' chain, ∀ d, ¬ index.Knows segment d := by
  simp only [KnowsSegment, ← exists_knows_iff, not_exists, not_and]

theorem LastKnown.mem {names : List String} {d : Descriptor} (h : index.LastKnown names name d) :
    name ∈ names := by
  obtain ⟨hsplit, -, -⟩ := h
  rw [hsplit]
  exact List.mem_append_right _ List.mem_cons_self

/-- The command finds out which chains have no known segment. -/
theorem IsBuilt.fallsBack_iff (h : IsBuilt modules index) :
    fallsBack index chain = true ↔ ¬ index.KnowsSegment chain := by
  have hname := h.fallback_of_root.1
  have hroot := h.knows_fallback_iff.2 rfl
  have hcheck : fallsBack index chain = true ↔
      index.resolve chain = index.fallback ∧ Name.rootType ∉ Text.segments ':' chain := by
    rw [fallsBack, Bool.and_eq_true, isFallback, beq_iff_eq, Bool.not_eq_true', ← Bool.not_eq_true,
      List.contains_iff_mem]
    exact and_congr_right fun hfallback => by rw [hfallback, hname]
  rw [hcheck, h.resolve_eq_fallback_iff rfl, not_knowsSegment_iff]
  constructor
  · rintro ⟨hnone | ⟨d, hlast⟩, hrootless⟩
    · exact hnone
    · exact absurd hlast.mem hrootless
  · intro hnone
    exact ⟨.inl hnone, fun hmem => hnone _ hmem _ hroot⟩

/-- For every index that was built, the command writes one line for each chain, in order: the chain,
the canonical name of the type that it resolves to, and whether this is a fallback, which it is
exactly if the index knows no segment of the chain; a chain that names the root type is exact. The
exit code is 2 exactly if it has to be strict and some chain falls back, and 0 otherwise. -/
theorem resolveReport_classifies (hbuild : build modules = .ok index) (chains : List String)
    (strict : Bool) :
    (∃ lines : List String,
      (resolveReport index chains strict).output = String.join (lines.map (· ++ "\n")) ∧
      List.Forall₂ (fun chain line => ∃ mark : String,
        line = chain ++ "\t" ++ (index.resolve chain).canonicalName ++ "\t" ++ mark ∧
        (mark = "fallback" ↔ ¬ index.KnowsSegment chain) ∧
        (mark = "exact" ↔ index.KnowsSegment chain)) chains lines) ∧
    ((resolveReport index chains strict).status = .ok 2 ↔
      strict = true ∧ ∃ chain ∈ chains, ¬ index.KnowsSegment chain) ∧
    ((resolveReport index chains strict).status = .ok 0 ↔
      ¬ (strict = true ∧ ∃ chain ∈ chains, ¬ index.KnowsSegment chain)) := by
  have hbuilt := isBuilt_of_build hbuild
  have hcode : (strict && chains.any (fallsBack index)) = true ↔
      strict = true ∧ ∃ chain ∈ chains, ¬ index.KnowsSegment chain := by
    simp only [Bool.and_eq_true, List.any_eq_true, hbuilt.fallsBack_iff]
  refine ⟨⟨chains.map (resolveLine index), rfl, ?_⟩, ?_, ?_⟩
  · rw [List.forall₂_map_right_iff, List.forall₂_same]
    intro chain _
    refine ⟨if fallsBack index chain then "fallback" else "exact", ?_, ?_, ?_⟩
    · have htab : '\t'.toString = "\t" := rfl
      rw [resolveLine, Text.joined_cons_cons, Text.joined_cons_cons, Text.joined_singleton, htab]
      simp only [String.append_assoc]
    · rw [← hbuilt.fallsBack_iff]
      cases fallsBack index chain <;> decide
    · rw [← not_iff_not, ← hbuilt.fallsBack_iff]
      cases fallsBack index chain <;> decide
  · rw [← hcode, resolveReport]
    cases strict && chains.any (fallsBack index) <;> simp
  · rw [← hcode, resolveReport]
    cases strict && chains.any (fallsBack index) <;> simp

end Index

/-- Tiles under the name of a retired type, with a former name. -/
def Module.tileKit : List Module :=
  [{ name := "Kit"
     types := [{
       handle := ⟨19, "Tile"⟩
       typeName := some "Kit.Deprecated.Tile"
       parent := some TypeHandle.root
       deprecatedNames := ["Kit.Slab"] }] }]

/-- What the index holds about tiles. -/
def Descriptor.sampleTile : Descriptor :=
  ⟨"Kit.Deprecated.Tile", ⟨19, "Tile"⟩, ["Kit.Deprecated.Tile"], ["Kit.Slab"], []⟩

namespace Index

open Descriptor

/-- The index of the kit of tiles. -/
def tileIndex : Index where
  descriptors := [sampleRoot, sampleTile]
  names := [("Base", sampleRoot), ("Kit.Deprecated.Tile", sampleTile), ("Kit.Slab", sampleTile)]
  fallback := sampleRoot
  modules := ["Kit"]

/-- Found by its deprecated form, by a former name behind an unknown one, and as the root itself;
the last chain falls back. -/
theorem resolveReport_tileKit :
    build Module.tileKit = .ok tileIndex ∧
      (resolveReport tileIndex
          ["Base:Kit.Tile", "Kit.Slab:Kit.Roof", "Kit.Roof:Base", "Kit.Roof"] true).lines =
        ["Base:Kit.Tile\tKit.Deprecated.Tile\texact",
          "Kit.Slab:Kit.Roof\tKit.Deprecated.Tile\texact",
          "Kit.Roof:Base\tBase\texact", "Kit.Roof\tBase\tfallback"] ∧
      ¬ tileIndex.KnowsSegment "Kit.Roof" ∧
      (resolveReport tileIndex
          ["Base:Kit.Tile", "Kit.Slab:Kit.Roof", "Kit.Roof:Base", "Kit.Roof"] true).status =
        .ok 2 := by
  have hbuild : build Module.tileKit = .ok tileIndex := by decide +kernel
  have hroof : ¬ tileIndex.KnowsSegment "Kit.Roof" := by
    rw [not_knowsSegment_iff]
    intro segment hsegment
    have hsegments : Text.segments ':' "Kit.Roof" = ["Kit.Roof"] := by decide
    rw [hsegments, List.mem_singleton] at hsegment
    rw [hsegment]
    exact hit?_eq_none_iff.1 (by decide +kernel)
  refine ⟨hbuild, by decide +kernel, hroof, ?_⟩
  exact (resolveReport_classifies hbuild _ true).2.1.2 ⟨rfl, "Kit.Roof", by simp, hroof⟩

end Index

end ObjectGraph
