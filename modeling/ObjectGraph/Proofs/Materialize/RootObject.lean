import ObjectGraph.Proofs.Materialize.NormalForm
import ObjectGraph.Proofs.Materialize.Refusal

/-!
# What the root object keeps

The object at the root of a document always becomes a node; without a text as its type chain it
becomes a node of the root type. The document of this node is the normal form of the object with the
chain that it is read by (`Index.toDocument_root`). So every entry is kept, but for null ids, and an
id that is neither a text nor null is refused (`Index.materializeObject_keeps`).

The chain is the one entry that is not looked at: if it is not a text, it is neither refused nor
kept (`Index.materializeObject_drops_chain`).
-/

namespace ObjectGraph

namespace Document

/-- The type chain that a root object is read by. -/
def rootChain (entries : List (String × Document)) : String :=
  (typeChain? entries).getD Name.rootType

/-- The root object with that chain as its type chain. -/
def withRootChain (entries : List (String × Document)) : List (String × Document) :=
  Entries.place Header.typeName.name (.string (rootChain entries)) entries

variable {entries : List (String × Document)}

theorem get?_withRootChain (name : String) :
    Entries.get? name (withRootChain entries) =
      if Header.typeName.name = name then some (.string (rootChain entries))
      else Entries.get? name entries :=
  Entries.get?_place _ _ _ _

theorem typeChain?_withRootChain :
    typeChain? (withRootChain entries) = some (rootChain entries) := by
  rw [typeChain?, get?_withRootChain, if_pos rfl]
  rfl

/-- A type chain that is a text stays as it is. -/
theorem get?_withRootChain_of_string {key : String} {d : Document}
    (hget : Entries.get? key entries = some d)
    (hstring : key = Header.typeName.name → ∃ s, d = .string s) :
    Entries.get? key (withRootChain entries) = some d := by
  rw [get?_withRootChain]
  split
  · rename_i hkey
    obtain ⟨s, rfl⟩ := hstring hkey.symm
    rw [rootChain, typeChain?, hkey, hget]
    rfl
  · exact hget

end Document

namespace Index

open Document (rootChain withRootChain)

variable {index : Index} {modules : List Module} {entries : List (String × Document)}

/-- Filling does not look at the type chain. -/
theorem Filled.withRootChain {n m : Node} (h : index.Filled entries n m) :
    index.Filled (withRootChain entries) n m where
  written name d hname hget := by
    rw [Document.get?_withRootChain, if_neg (Ne.symm hname)] at hget
    exact h.written name d hname hget
  kept name hname := by
    rw [Document.get?_withRootChain] at hname
    rcases hname with hchain | hnone
    · exact h.kept name (.inl hchain)
    · split at hnone
      · cases hnone
      · exact h.kept name (.inr hnone)
  declared := h.declared
  reachable := h.reachable

/-- The document of the root node is the normal form of the object with the chain that it is read
by. -/
theorem toDocument_root (hbuilt : IsBuilt modules index) (hfree : index.HeaderFree)
    (hd : (Document.object entries).Ordered) {root : Vertex}
    (h : index.materializeObject entries = .ok root) :
    root.node.toDocument = index.normalForm (.object (withRootChain entries)) := by
  obtain ⟨m, hfill, rfl⟩ := materializeObject_eq_ok h
  cases hd with
  | object hkeys hvalues =>
      have hchain : Document.typeChain? (withRootChain entries) = some (rootChain entries) :=
        Document.typeChain?_withRootChain
      have hfilled := (fill_eq_ok hkeys.nodup_keys hfill).withRootChain
      have hplaced : (Entries.keys (withRootChain entries)).Nodup := hkeys.place.nodup_keys
      have hresolve := hbuilt.mem_resolve (rootChain entries)
      rw [normalForm, hchain]
      apply toDocument_filled (hbuilt.nodup_properties hresolve) (hfree _ hresolve) hplaced
        hchain hfilled
      intro name d hget
      rw [Document.get?_withRootChain] at hget
      apply toDocument_of_materializes hbuilt hfree
      -- The chain that was placed is a text; every other entry is one of the object.
      split at hget
      · cases hget
        exact .string _
      · exact hvalues (name, d) (Entries.mem_of_get? hget)

/-- An id that is neither a text nor null is refused. -/
theorem exists_error_of_header {header : Header} (hne : header ≠ .typeName) {d : Document}
    (hget : Entries.get? header.name entries = some d) (hnull : d ≠ .null)
    (hstring : ∀ s, d ≠ .string s) : ∃ error, index.materializeObject entries = .error error := by
  have hrefuses : index.Refuses (rootChain entries) header.name d (.headerType header) :=
    .header hne hnull hstring
  -- If the object were read, a node of the chain's type would have accepted the id.
  cases hresult : index.materializeObject entries with
  | error error => exact ⟨error, rfl⟩
  | ok root =>
      obtain ⟨m, hfill, -⟩ := materializeObject_eq_ok hresult
      obtain ⟨v, hv, haccepts⟩ :=
        accepts_of_fill hfill (header.name, d) (Entries.mem_of_get? hget) hrefuses.ne_typeName
      exact absurd haccepts (hrefuses.not_accepts hv)

/-- In a root object, an id that is neither a text nor null is refused. If the object is read, every
entry of it stands in the document of the node, in its normal form, but for null ids and for a type
chain that is not a text. Apart from the chain that it is read by, nothing is added but what the
normal form adds. -/
theorem materializeObject_keeps (hbuild : build modules = .ok index) (hfree : index.HeaderFree)
    (hd : (Document.object entries).Ordered) :
    (∀ header : Header, header ≠ .typeName →
      ∀ d, Entries.get? header.name entries = some d → d ≠ .null → (∀ s, d ≠ .string s) →
        ∃ error, index.materializeObject entries = .error error) ∧
    ∀ root, index.materializeObject entries = .ok root →
      root.node.toDocument = index.normalForm (.object (withRootChain entries)) ∧
      ∃ rendered, root.node.toDocument = .object rendered ∧
        ∀ key d, Entries.get? key entries = some d → d.isMissingId key = false →
          (key = Header.typeName.name → ∃ s, d = .string s) →
            Entries.get? key rendered = some (index.normalForm d) := by
  have hbuilt := isBuilt_of_build hbuild
  refine ⟨fun header hne d hget hnull hstring => exists_error_of_header hne hget hnull hstring, ?_⟩
  intro root hroot
  have hdocument := toDocument_root hbuilt hfree hd hroot
  refine ⟨hdocument, ?_⟩
  cases hd with
  | object hkeys _ =>
      have hplaced : (Entries.keys (withRootChain entries)).Nodup := hkeys.place.nodup_keys
      have hproperties := hbuilt.nodup_properties (hbuilt.mem_resolve (rootChain entries))
      rw [normalForm, Document.typeChain?_withRootChain] at hdocument
      refine ⟨_, hdocument, ?_⟩
      intro key d hget hkept hstring
      have hplace := Document.get?_withRootChain_of_string hget hstring
      -- The key is there, so it is not one of the null members that the normal form adds.
      rw [Entries.get?_sorted_of_nodup (nodup_keys_normalObject hproperties hplaced),
        Entries.get?_append, get?_missingMembers,
        if_neg fun hboth => Option.some_ne_none d (hplace.symm.trans hboth.2),
        get?_normalMembers hplaced, hplace, Option.bind_some, hkept]
      rfl

end Index

/-! ## Root objects without a type chain -/

namespace Document

/-- A root object with a column under its note and with a null id. -/
def looseEntries : List (String × Document) :=
  [("id", .null),
    ("note", .object [("height", .bool true), ("speckle_type", .string "Kit.Column")]),
    ("weight", .integer 0x8000000000000403 (by decide) (by decide))]

theorem ordered_looseEntries : (Document.object looseEntries).Ordered := by
  refine .object (by rw [Entries.Increasing]; decide) ?_
  rintro entry (_ | ⟨_, _ | ⟨_, _ | ⟨_, ⟨⟩⟩⟩⟩)
  · exact .null
  · refine .object (by rw [Entries.Increasing]; decide) ?_
    rintro entry (_ | ⟨_, _ | ⟨_, ⟨⟩⟩⟩)
    · exact .bool true
    · exact .string _
  · exact .integer _ _ _

/-- A root object with a number as its type chain. -/
def numberedEntries : List (String × Document) :=
  [("speckle_type", .integer 5 (by decide) (by decide))]

theorem ordered_numberedEntries : (Document.object numberedEntries).Ordered := by
  refine .object (by rw [Entries.Increasing]; decide) ?_
  rintro entry (_ | ⟨_, ⟨⟩⟩)
  exact .integer _ _ _

end Document

namespace Index

/-- The null id is dropped, the column gets its parts, and the chain of the root type is written. A
boolean is refused as an id. -/
theorem materializeObject_looseEntries :
    build Module.columnKit = .ok columnIndex ∧ columnIndex.HeaderFree ∧
      (Document.object Document.looseEntries).Ordered ∧
      (∃ root, columnIndex.materializeObject Document.looseEntries = .ok root ∧
        root.node.toDocument.written =
          "\x7b\"note\":\x7b\"@parts\":null,\"height\":true,\"speckle_type\":\"Kit.Column\"\x7d," ++
            "\"speckle_type\":\"Base\",\"weight\":9223372036854778000\x7d") ∧
      ∃ error, columnIndex.materializeObject [("id", .bool true)] = .error error := by
  obtain ⟨-, hread⟩ :=
    materializeObject_keeps build_columnKit headerFree_columnIndex Document.ordered_looseEntries
  have hflagged : (Document.object [("id", .bool true)]).Ordered := by
    refine .object (by rw [Entries.Increasing]; decide) ?_
    rintro entry (_ | ⟨_, ⟨⟩⟩)
    exact .bool true
  obtain ⟨hrefused, -⟩ := materializeObject_keeps build_columnKit headerFree_columnIndex hflagged
  have hsome : (columnIndex.materializeObject Document.looseEntries).toOption.isSome = true := by
    decide +kernel
  obtain ⟨root, hroot⟩ := Option.isSome_iff_exists.1 hsome
  rw [toOption_eq_some_iff] at hroot
  refine ⟨build_columnKit, headerFree_columnIndex, Document.ordered_looseEntries,
    ⟨root, hroot, ?_⟩, ?_⟩
  · rw [(hread root hroot).1]
    decide +kernel
  · exact hrefused .id (by decide) _ rfl (by simp) (by simp)

/-- A type chain that is not a text is passed over: the object is read as a node of the root type,
and nothing of the entry is left in its document. -/
theorem materializeObject_drops_chain :
    build Module.columnKit = .ok columnIndex ∧ columnIndex.HeaderFree ∧
      (Document.object Document.numberedEntries).Ordered ∧
      columnIndex.materializeObject Document.numberedEntries = .ok ⟨⟨[]⟩, .new "Base"⟩ ∧
      (Node.new "Base").toDocument = .object [("speckle_type", .string "Base")] ∧
      (¬ ∀ entries, (Document.object entries).Ordered → ∀ header : Header, ∀ d,
        Entries.get? header.name entries = some d → (∀ s, d ≠ .string s) →
          (header = .typeName ∨ d ≠ .null) →
          ∃ error, columnIndex.materializeObject entries = .error error) ∧
      ¬ ∀ entries, (Document.object entries).Ordered → ∀ root,
        columnIndex.materializeObject entries = .ok root → ∃ rendered,
          root.node.toDocument = .object rendered ∧ ∀ key d, Entries.get? key entries = some d →
            d.isMissingId key = false →
              Entries.get? key rendered = some (columnIndex.normalForm d) := by
  have hread : columnIndex.materializeObject Document.numberedEntries = .ok ⟨⟨[]⟩, .new "Base"⟩ :=
    rfl
  have hdocument : (Node.new "Base").toDocument = .object [("speckle_type", .string "Base")] := rfl
  have hordered := Document.ordered_numberedEntries
  refine ⟨build_columnKit, headerFree_columnIndex, hordered, hread, hdocument, ?_, ?_⟩
  · intro h
    obtain ⟨error, herror⟩ := h _ hordered .typeName _ rfl (by simp) (.inl rfl)
    rw [hread] at herror
    cases herror
  · intro h
    obtain ⟨rendered, hrendered, hkept⟩ := h _ hordered _ hread
    rw [hdocument] at hrendered
    cases hrendered
    have hnumber := hkept "speckle_type" _ rfl rfl
    have hsmall : (5 : Int) < integerBound := by decide
    rw [normalForm, if_pos hsmall] at hnumber
    cases hnumber

end Index

end ObjectGraph
