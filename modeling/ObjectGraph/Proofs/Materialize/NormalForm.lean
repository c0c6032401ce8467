import ObjectGraph.Proofs.Binary64.Nearest
import ObjectGraph.Proofs.Document.SameTree
import ObjectGraph.Proofs.Materialize.Fill

/-!
# What materializing keeps

A document that can be materialized comes back as its normal form: the same document, but for large
integers, null ids and declared members that were missing (`Index.normalForm`). Nothing else is
changed at any depth: neither the type chain nor any other entry is lost, whether the index knows
the type or not (`Index.toDocument_materialize`).
-/

namespace ObjectGraph

namespace Document

/-- Whether the document is null. -/
def isNull : Document → Bool
  | .null => true
  | _ => false

/-- A null id or application id, which a node does not write. -/
def isMissingId (key : String) (d : Document) : Bool :=
  d.isNull && (key == Header.id.name || key == Header.applicationId.name)

end Document

namespace Index

/-- The members that the type of a chain declares and that have no entry, as null entries. -/
def missingMembers (index : Index) (chain : String) (entries : List (String × Document)) :
    List (String × Document) :=
  ((Entries.keys (index.resolve chain).properties).filter fun name =>
    !Entries.contains name entries).map fun name => (name, .null)

mutual

/-- The document with three changes, made at every depth. An integer beyond 64 bits with sign
becomes the nearest double. Of an object with a text as its type chain, null ids are dropped, and
every declared member that has no entry is added as null. -/
def normalForm (index : Index) : Document → Document
  | .null => .null
  | .bool b => .bool b
  | .integer n lower upper =>
      if n < integerBound then .integer n lower upper else Document.ofFloat (Binary64.ofInt n)
  | .float x finite => .float x finite
  | .string s => .string s
  | .array items => .array (normalItems index items)
  | .object entries =>
      match Document.typeChain? entries with
      | some chain =>
          Document.ofEntries (index.missingMembers chain entries ++ normalMembers index entries)
      | none => .object (normalEntries index entries)

/-- The normal forms of the elements of an array. -/
def normalItems (index : Index) : List Document → List Document
  | [] => []
  | item :: rest => normalForm index item :: normalItems index rest

/-- The entries of an object without a type chain, with normal forms. -/
def normalEntries (index : Index) : List (String × Document) → List (String × Document)
  | [] => []
  | (key, d) :: rest => (key, normalForm index d) :: normalEntries index rest

/-- The entries of an object with a type chain, without null ids and with normal forms. -/
def normalMembers (index : Index) : List (String × Document) → List (String × Document)
  | [] => []
  | (key, d) :: rest =>
      if d.isMissingId key then normalMembers index rest
      else (key, normalForm index d) :: normalMembers index rest

end

variable {index : Index}

theorem normalItems_eq_map (items : List Document) :
    normalItems index items = items.map index.normalForm := by
  induction items with
  | nil => rfl
  | cons item rest ih => rw [normalItems, ih, List.map_cons]

theorem normalEntries_eq_map (entries : List (String × Document)) :
    normalEntries index entries = entries.map fun entry => (entry.1, index.normalForm entry.2) := by
  induction entries with
  | nil => rfl
  | cons entry rest ih => rw [normalEntries, ih, List.map_cons]

/-- The members of an object are normalized one by one, without ids that are null. -/
theorem normalMembers_eq_map (entries : List (String × Document)) :
    normalMembers index entries = (entries.filter fun entry => !entry.2.isMissingId entry.1).map
      fun entry => (entry.1, index.normalForm entry.2) := by
  induction entries with
  | nil => rfl
  | cons entry rest ih =>
      rw [normalMembers, ih]
      split
      · rw [List.filter_cons_of_neg (by simp [*])]
      · rw [List.filter_cons_of_pos (by simp [*]), List.map_cons]

/-! ## Objects with a type chain -/

section Members

variable {chain : String} {entries : List (String × Document)}

/-- The added entries are null, and stand under the declared names that have no entry. -/
theorem get?_missingMembers (name : String) :
    Entries.get? name (index.missingMembers chain entries) =
      if name ∈ Entries.keys (index.resolve chain).properties ∧
          Entries.get? name entries = none then
        some .null
      else none := by
  rw [missingMembers, Entries.get?_map_pair]
  simp [Entries.contains]

/-- Under a name stands the normal form of its entry, unless that is a null id. -/
theorem get?_normalMembers (hkeys : (Entries.keys entries).Nodup) (name : String) :
    Entries.get? name (normalMembers index entries) = (Entries.get? name entries).bind fun d =>
      if d.isMissingId name then none else some (index.normalForm d) := by
  induction entries with
  | nil => rfl
  | cons entry rest ih =>
      obtain ⟨key, d⟩ := entry
      rw [Entries.keys_cons, List.nodup_cons] at hkeys
      obtain ⟨hfresh, hrest⟩ := hkeys
      rw [normalMembers, Entries.get?_cons]
      by_cases hname : key = name
      · subst hname
        rw [if_pos rfl, Option.bind_some]
        split
        · rw [ih hrest, Entries.get?_eq_none_iff.2 hfresh, Option.bind_none]
        · rw [Entries.get?_cons, if_pos rfl]
      · rw [if_neg hname]
        split
        · exact ih hrest
        · rw [Entries.get?_cons, if_neg hname]
          exact ih hrest

/-- The entries of the normal form have distinct keys: the missing members have none of the
others. -/
theorem nodup_keys_normalObject
    (hproperties : (Entries.keys (index.resolve chain).properties).Nodup)
    (hkeys : (Entries.keys entries).Nodup) :
    (Entries.keys (index.missingMembers chain entries ++ normalMembers index entries)).Nodup := by
  have hmissing : Entries.keys (index.missingMembers chain entries) =
      (Entries.keys (index.resolve chain).properties).filter fun name =>
        !Entries.contains name entries := by
    rw [missingMembers, Entries.keys, List.map_map]
    exact List.map_id _
  have hmembers : (Entries.keys (normalMembers index entries)).Sublist (Entries.keys entries) := by
    rw [normalMembers_eq_map, Entries.keys, List.map_map]
    exact List.filter_sublist.map _
  rw [Entries.keys_append, hmissing]
  apply (hproperties.filter _).append (hkeys.sublist hmembers)
  intro name hname hmember
  have hcontains := (List.mem_filter.1 hname).2
  rw [(Entries.contains_iff_mem_keys name entries).2 (hmembers.subset hmember)] at hcontains
  cases hcontains

end Members

/-- A value is null exactly when its document is. -/
theorem Materializes.isNull_eq {d : Document} {v : Value} (h : index.Materializes d v) :
    v.isNull = d.isNull := by
  obtain ⟨place, h⟩ := h
  cases becomes_of_materializeAt h with
  | integer n =>
      rw [Value.ofInteger]
      split <;> rfl
  | null | bool | float | string | array | map | node => rfl

/-- An integer of a document comes back, or else its nearest double does. -/
theorem toDocument_ofInteger {n : Int} (lower : -integerBound ≤ n) (upper : n < 2 * integerBound) :
    (Value.ofInteger n).toDocument = index.normalForm (.integer n lower upper) := by
  rw [Value.ofInteger, normalForm]
  split
  · rename_i hlt
    have hn : (Int64.ofInt n).toInt = n := by
      apply Int64.toInt_ofInt_of_le
      · exact lower
      · exact hlt
    rw [Value.toDocument, Document.ofInt64]
    congr 1
  · rw [Value.toDocument]

/-- The members: one that is declared and has no entry is null, and any entry is rendered. -/
theorem documentAt_member {chain : String} {entries : List (String × Document)} {m : Node}
    {name : String} (hname : Header.ofName? name = none)
    (h : index.Filled entries (index.instantiateAs chain) m)
    (hvalues : ∀ name d, Entries.get? name entries = some d → ∀ v, index.Materializes d v →
      v.toDocument = index.normalForm d) :
    (m.get? name).map Value.toDocument =
      (if name ∈ Entries.keys (index.resolve chain).properties ∧
          Entries.get? name entries = none then
        some Document.null
      else none).or ((Entries.get? name entries).bind fun d =>
        if d.isMissingId name then none else some (index.normalForm d)) := by
  cases hentry : Entries.get? name entries with
  | none =>
      rw [h.get?_of_none hname hentry]
      by_cases hdeclared : name ∈ Entries.keys (index.resolve chain).properties
      · rw [if_pos hdeclared, if_pos ⟨hdeclared, rfl⟩]
        rfl
      · rw [if_neg hdeclared, if_neg fun hboth => hdeclared hboth.1]
        rfl
  | some d =>
      obtain ⟨v, hv, hread⟩ := h.get?_of_some hname hentry
      have hmissing : d.isMissingId name = false := by
        rw [Document.isMissingId,
          beq_eq_false_iff_ne.2 (Node.ne_header_of_plain hname .id).symm,
          beq_eq_false_iff_ne.2 (Node.ne_header_of_plain hname .applicationId).symm]
        exact Bool.and_false _
      rw [hread, if_neg fun hboth => Option.some_ne_none d hboth.2, Option.none_or,
        Option.bind_some, hmissing, Option.map_some, hvalues name d hentry v hv]
      rfl

/-- The header fields other than the type chain: a null one is dropped, and any other one stays. -/
theorem documentAt_header {chain : String} {entries : List (String × Document)} {m : Node}
    {header : Header} (hne : header ≠ .typeName)
    (h : index.Filled entries (index.instantiateAs chain) m)
    (hvalues : ∀ name d, Entries.get? name entries = some d → ∀ v, index.Materializes d v →
      v.toDocument = index.normalForm d) :
    (if (m.header header).isNull then none else some (m.header header).toDocument) =
      (Entries.get? header.name entries).bind fun d =>
        if d.isMissingId header.name then none else some (index.normalForm d) := by
  cases hget : Entries.get? header.name entries with
  | none =>
      rw [h.header_of_none hne hget]
      rfl
  | some d =>
      have hd := h.header_of_some hne hget
      -- Only null is read as null, so the field is dropped exactly where the entry is.
      have hmissing : d.isMissingId header.name = d.isNull := by
        rw [Document.isMissingId]
        cases header with
        | typeName => exact absurd rfl hne
        | id => exact Bool.and_true _
        | applicationId => exact Bool.and_true _
      rw [Option.bind_some, hd.isNull_eq, hmissing, hvalues _ d hget _ hd]

/-- The document of a node made from an object is the normal form of the object, if this holds of
the values of the entries. -/
theorem toDocument_filled {chain : String} {entries : List (String × Document)} {m : Node}
    (hproperties : (Entries.keys (index.resolve chain).properties).Nodup)
    (hfree : ∀ header : Header, header.name ∉ Entries.keys (index.resolve chain).properties)
    (hkeys : (Entries.keys entries).Nodup) (hchain : Document.typeChain? entries = some chain)
    (h : index.Filled entries (index.instantiateAs chain) m)
    (hvalues : ∀ name d, Entries.get? name entries = some d → ∀ v, index.Materializes d v →
      v.toDocument = index.normalForm d) :
    m.toDocument =
      Document.ofEntries (index.missingMembers chain entries ++ normalMembers index entries) := by
  obtain ⟨rendered, hrendered, hincreasing, hget⟩ :=
    Node.exists_toDocument_eq h.wellFormed (h.headerFree hfree)
  rw [hrendered, Document.ofEntries]
  congr 1
  -- Both sides stand in key order, so they are compared name by name: members first, then header
  -- fields.
  apply hincreasing.ext (Entries.increasing_sorted _)
  intro name
  rw [hget, Entries.get?_sorted_of_nodup (nodup_keys_normalObject hproperties hkeys),
    Entries.get?_append, get?_missingMembers, get?_normalMembers hkeys, Node.documentAt?]
  cases hname : Header.ofName? name with
  | none =>
      exact documentAt_member hname h hvalues
  | some header =>
      obtain rfl := Header.name_of_ofName? hname
      rw [if_neg fun hboth => hfree header hboth.1, Option.none_or]
      by_cases hheader : header = .typeName
      · subst hheader
        obtain ⟨d, hd, hstring⟩ := Option.bind_eq_some_iff.1 hchain
        cases d <;> cases hstring
        rw [hd]
        change some (Value.string m.typeName).toDocument = _
        rw [h.typeName_eq]
        rfl
      · exact documentAt_header hheader h hvalues

theorem normalEntries_increasing {entries : List (String × Document)}
    (h : Entries.Increasing entries) : Entries.Increasing (normalEntries index entries) := by
  rw [normalEntries_eq_map]
  exact h.map index.normalForm

theorem map_eq_map_of_forall₂ {α β γ : Type} {R : α → β → Prop} {xs : List α} {ys : List β}
    (h : List.Forall₂ R xs ys) {f : β → γ} {g : α → γ} (heq : ∀ x ∈ xs, ∀ y, R x y → f y = g x) :
    ys.map f = xs.map g := by
  induction h with
  | nil => rfl
  | cons hxy _ ih =>
      obtain ⟨hfirst, hrest⟩ := List.forall_mem_cons.1 heq
      rw [List.map_cons, List.map_cons, hfirst _ hxy, ih hrest]

/-- The value of a document, wherever it stands, has the normal form as its document. -/
theorem toDocument_of_materializes {modules : List Module} (hbuilt : IsBuilt modules index)
    (hfree : index.HeaderFree) {d : Document} (hd : d.Ordered) :
    ∀ v, index.Materializes d v → v.toDocument = index.normalForm d := by
  induction hd with
  | null | bool | string =>
      rintro v ⟨place, h⟩
      cases h
      rfl
  | integer n lower upper =>
      rintro v ⟨place, h⟩
      cases h
      exact toDocument_ofInteger lower upper
  | float x finite =>
      rintro v ⟨place, h⟩
      cases h
      rw [Value.toDocument, Document.ofFloat, dif_pos finite]
      rfl
  | array _ ih =>
      rintro v ⟨place, h⟩
      cases becomes_of_materializeAt h with
      | array hvalues =>
          rw [Value.toDocument, normalForm, itemDocuments_eq_map, normalItems_eq_map,
            map_eq_map_of_forall₂ (materializeItems_eq_ok hvalues) ih]
  | @object entries hkeys _ ih =>
      rintro v ⟨place, h⟩
      rw [normalForm]
      cases becomes_of_materializeAt h with
      | @map _ values hchain hvalues =>
          rw [hchain]
          have hsame : entryDocuments values = normalEntries index entries := by
            rw [entryDocuments_eq_map, normalEntries_eq_map]
            apply map_eq_map_of_forall₂ (materializeEntries_eq_ok hvalues)
            rintro entry hentry value ⟨hkey, hvalue⟩
            rw [← hkey, ih entry hentry value.2 hvalue]
          rw [Value.toDocument, hsame, Document.ofEntries,
            Entries.sorted_eq_self (normalEntries_increasing hkeys)]
      | @node _ chain m hchain hfill =>
          -- Whatever the chain is, it resolves to a type of the index, so the hypotheses on types
          -- apply.
          have hresolve := hbuilt.mem_resolve chain
          rw [hchain, Value.toDocument]
          apply toDocument_filled (hbuilt.nodup_properties hresolve) (hfree _ hresolve)
            hkeys.nodup_keys hchain (fill_eq_ok hkeys.nodup_keys hfill)
          intro name e hentry
          exact ih (name, e) (Entries.mem_of_get? hentry)

/-- A large integer has the nearest double as its normal form. -/
theorem normalForm_integer {n : Int} (lower : -integerBound ≤ n) (upper : n < 2 * integerBound)
    (hlarge : integerBound ≤ n) :
    ∃ x finite, index.normalForm (.integer n lower upper) = .float x finite ∧ x.IsNearest n := by
  have hnearest := Binary64.isNearest_ofInt hlarge upper
  refine ⟨Binary64.ofInt n, hnearest.finite, ?_, hnearest⟩
  rw [normalForm, if_neg (Int.not_lt.2 hlarge), Document.ofFloat, dif_pos hnearest.finite]

/-- If a document can be materialized, the document of its value is its normal form. A large integer
is the only number that changes, and it becomes the nearest double. -/
theorem toDocument_materialize {modules : List Module} (hbuild : build modules = .ok index)
    (hfree : index.HeaderFree) {d : Document} (hd : d.Ordered) {v : Value}
    (h : index.materialize d = .ok v) :
    v.toDocument = index.normalForm d ∧
      ∀ n lower upper, integerBound ≤ n →
        ∃ x finite, index.normalForm (.integer n lower upper) = .float x finite ∧ x.IsNearest n :=
  ⟨toDocument_of_materializes (isBuilt_of_build hbuild) hfree hd v ⟨[], h⟩,
    fun _ lower upper hlarge => normalForm_integer lower upper hlarge⟩

end Index

/-- A node of an unknown type, with a null id. -/
def Document.samplePanel : Document :=
  .object [("id", .null), ("speckle_type", .string "Kit.Panel"),
    ("weight", .integer 0x8000000000000401 (by decide) (by decide))]

/-- A column without a height. Its parts are the panel and an object without a type. -/
def Document.sampleColumn : Document :=
  .object [("@parts", .array [samplePanel, .object [("id", .null)]]),
    ("speckle_type", .string "Kit.Column")]

theorem Document.ordered_sampleColumn : sampleColumn.Ordered := by
  have hpanel : samplePanel.Ordered := by
    refine .object (by rw [Entries.Increasing]; decide) ?_
    rintro entry (_ | ⟨_, _ | ⟨_, _ | ⟨_, ⟨⟩⟩⟩⟩)
    · exact .null
    · exact .string _
    · exact .integer _ _ _
  refine .object (by rw [Entries.Increasing]; decide) ?_
  rintro entry (_ | ⟨_, _ | ⟨_, ⟨⟩⟩⟩)
  · refine .array ?_
    rintro item (_ | ⟨_, _ | ⟨_, ⟨⟩⟩⟩)
    · exact hpanel
    · refine .object (by rw [Entries.Increasing]; decide) ?_
      rintro entry (_ | ⟨_, ⟨⟩⟩)
      exact .null
  · exact .string _

/-- The id of the panel is dropped, its weight is rounded, and the column gets its height. The other
null id is no header field and stays. -/
theorem Index.materialize_sampleColumn :
    build Module.columnKit = .ok columnIndex ∧ columnIndex.HeaderFree ∧
    ∃ v, columnIndex.materialize Document.sampleColumn = .ok v ∧
      v.toDocument.written =
        "\x7b\"@parts\":[\x7b\"speckle_type\":\"Kit.Panel\",\"weight\":9223372036854778000\x7d," ++
          "\x7b\"id\":null\x7d],\"height\":null,\"speckle_type\":\"Kit.Column\"\x7d" := by
  have hsome : (columnIndex.materialize Document.sampleColumn).toOption.isSome = true := by
    decide +kernel
  obtain ⟨v, hv⟩ := Option.isSome_iff_exists.1 hsome
  rw [toOption_eq_some_iff] at hv
  refine ⟨build_columnKit, headerFree_columnIndex, v, hv, ?_⟩
  rw [(toDocument_materialize build_columnKit headerFree_columnIndex
    Document.ordered_sampleColumn hv).1]
  decide +kernel

end ObjectGraph
