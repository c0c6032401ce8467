import ObjectGraph.Proofs.Identity.Invariance
import ObjectGraph.Proofs.Materialize.NormalForm
import ObjectGraph.Proofs.Materialize.OlderConsumer
import ObjectGraph.Proofs.Materialize.Suitable
import ObjectGraph.Proofs.Registry.Resolution

/-!
# Content ids where types are not known

Which types an index knows decides which members of a node are declared and in which order they
stand, and the content of a node depends on neither. What it does depend on is which members there
are, so two indexes read a document as nodes with the same id if the document is complete for both:
where it has an object of a type, it has an entry for each member that the type declares
(`Index.Complete`). The document of a node is complete for an index that knows none of its types, so
the id survives the loss of all types (`Index.computeId_without_types`).
-/

namespace ObjectGraph

mutual

/-- The entries of each object in a document, outer objects first. -/
def Document.objects : Document → List (List (String × Document))
  | .object entries => entries :: objectsOfEntries entries
  | .array items => objectsOfItems items
  | .null | .bool _ | .integer .. | .float .. | .string _ => []

/-- The objects in the elements of an array. -/
def objectsOfItems : List Document → List (List (String × Document))
  | [] => []
  | item :: rest => item.objects ++ objectsOfItems rest

/-- The objects in the values of an object. -/
def objectsOfEntries : List (String × Document) → List (List (String × Document))
  | [] => []
  | (_, d) :: rest => d.objects ++ objectsOfEntries rest

end

theorem objectsOfItems_eq (items : List Document) :
    objectsOfItems items = items.flatMap Document.objects := by
  induction items with
  | nil => rfl
  | cons item rest ih => rw [objectsOfItems, ih, List.flatMap_cons]

theorem objectsOfEntries_eq (entries : List (String × Document)) :
    objectsOfEntries entries = entries.flatMap fun entry => entry.2.objects := by
  induction entries with
  | nil => rfl
  | cons entry rest ih => rw [objectsOfEntries, ih, List.flatMap_cons]

namespace Index

variable {index left right : Index}

/-- Each object with a type chain has an entry for each member that its type declares. -/
def Complete (index : Index) (d : Document) : Prop :=
  ∀ entries ∈ d.objects, ∀ chain, Document.typeChain? entries = some chain →
    ∀ name ∈ Entries.keys (index.resolve chain).properties, name ∈ Entries.keys entries

instance (index : Index) (d : Document) : Decidable (index.Complete d) :=
  decidable_of_iff
    (∀ entries ∈ d.objects, ∀ chain ∈ Document.typeChain? entries,
      ∀ name ∈ Entries.keys (index.resolve chain).properties, name ∈ Entries.keys entries)
    Iff.rfl

theorem Complete.item {items : List Document} (h : index.Complete (.array items)) :
    ∀ item ∈ items, index.Complete item := by
  intro item hitem entries hentries
  apply h entries
  rw [Document.objects, objectsOfItems_eq]
  exact List.mem_flatMap.2 ⟨item, hitem, hentries⟩

theorem Complete.entry {entries : List (String × Document)} (h : index.Complete (.object entries)) :
    ∀ entry ∈ entries, index.Complete entry.2 := by
  intro entry hentry others hothers
  apply h others
  rw [Document.objects, objectsOfEntries_eq]
  exact List.mem_cons_of_mem _ (List.mem_flatMap.2 ⟨entry, hentry, hothers⟩)

theorem Complete.self {entries : List (String × Document)} (h : index.Complete (.object entries))
    {chain : String} (hchain : Document.typeChain? entries = some chain) :
    ∀ name ∈ Entries.keys (index.resolve chain).properties, name ∈ Entries.keys entries :=
  h entries (by rw [Document.objects]; exact List.mem_cons_self) chain hchain

end Index

/-! ## Equivalent parts -/

section Parts

variable {α β γ : Type}

/-- Two lists of values that go with one list in parallel are equivalent if the values of each
element are. -/
theorem listEquivalent_of_forall₂ {P Q : α → Value → Prop} {elements : List α} {xs ys : List Value}
    (hx : List.Forall₂ P elements xs) (hy : List.Forall₂ Q elements ys)
    (h : ∀ a ∈ elements, ∀ v w, P a v → Q a w → v.Equivalent w) : ListEquivalent xs ys := by
  induction hx generalizing ys with
  | nil =>
      cases hy
      exact .nil
  | cons hv _ ih =>
      cases hy with
      | cons hw hrest =>
          obtain ⟨hfirst, hothers⟩ := List.forall_mem_cons.1 h
          exact .cons (hfirst _ _ hv hw) (ih hrest hothers)

theorem listEquivalent_of_rel {a b : Option Value} (h : Option.Rel Value.Equivalent a b) :
    ListEquivalent a.toList b.toList := by
  cases h with
  | none => exact .nil
  | some h => exact .cons h .nil

theorem rel_of_rel {P : α → β → Prop} {Q : α → γ → Prop} {R : β → γ → Prop} {a : Option α}
    {b : Option β} {c : Option γ} (hb : Option.Rel P a b) (hc : Option.Rel Q a c)
    (h : ∀ x, a = some x → ∀ v w, P x v → Q x w → R v w) : Option.Rel R b c := by
  cases hb with
  | none =>
      cases hc
      exact .none
  | some hv =>
      cases hc with
      | some hw => exact .some (h _ rfl _ _ hv hw)

/-- Maps with distinct keys are equivalent key by key. -/
theorem Value.equivalent_map {xs ys : List (String × Value)} (hx : (Entries.keys xs).Nodup)
    (hy : (Entries.keys ys).Nodup)
    (h : ∀ key, Option.Rel Value.Equivalent (Entries.get? key xs) (Entries.get? key ys)) :
    (Value.map xs).Equivalent (.map ys) := by
  refine .map ?_
  intro key
  rw [Entries.valuesAt_of_nodup hx, Entries.valuesAt_of_nodup hy]
  exact listEquivalent_of_rel (h key)

end Parts

namespace Node

variable {a b : Node}

/-- Under each name a node has at most one member, the one that is read there. -/
theorem WellFormed.valuesAt_members (h : a.WellFormed) (hfree : a.HeaderFree) (name : String) :
    Entries.valuesAt name (a.members .all) =
      if Header.ofName? name = none then (a.get? name).toList else [] := by
  rw [Entries.valuesAt_of_nodup h.nodup_memberNames]
  split
  · rename_i hplain
    rw [get?_of_plain hplain, members, Entries.get?_append]
  · rename_i hheader
    rw [Entries.get?_eq_none_iff.2 fun hmem => hheader (h.plain_of_mem hfree hmem)]
    rfl

/-- Nodes are equivalent member by member. -/
theorem equivalent_of_get? (ha : a.WellFormed) (hafree : a.HeaderFree) (hb : b.WellFormed)
    (hbfree : b.HeaderFree) (htype : a.typeName = b.typeName)
    (happ : a.applicationId = b.applicationId)
    (h : ∀ name, Header.ofName? name = none →
      Option.Rel Value.Equivalent (a.get? name) (b.get? name)) : a.Equivalent b := by
  refine .mk htype happ ?_
  intro name _ _
  rw [ha.valuesAt_members hafree, hb.valuesAt_members hbfree]
  split
  · rename_i hplain
    exact listEquivalent_of_rel (h name hplain)
  · exact .nil

/-- Equivalent nodes have one id, if one of them has a content. -/
theorem Equivalent.exists_computeId (h : a.Equivalent b) (ha : ∃ d, a.canonicalTree = .ok d) :
    ∃ id, a.computeId = .ok id ∧ b.computeId = .ok id := by
  obtain ⟨d, hd⟩ := ha
  have htext : a.canonicalText = .ok d.written := by
    rw [canonicalText, hd]
    rfl
  have hsame : b.canonicalText = .ok d.written := by
    rw [← toOption_eq_some_iff, ← h.canonicalText_eq, htext]
    rfl
  refine ⟨idOfText d.written, ?_, ?_⟩
  · rw [computeId, htext]
    rfl
  · rw [computeId, hsame]
    rfl

end Node

namespace Index

variable {left right : Index} {entries : List (String × Document)} {chain : String} {a b : Node}

/-! ## One document, two indexes -/

/-- Two nodes that were filled from the same entries are equivalent, if the values of the entries
are and there is an entry for each declared member. -/
theorem equivalent_filled (ha : left.Filled entries (left.instantiateAs chain) a)
    (hb : right.Filled entries (right.instantiateAs chain) b)
    (hafree : ∀ header : Header, header.name ∉ Entries.keys (left.resolve chain).properties)
    (hbfree : ∀ header : Header, header.name ∉ Entries.keys (right.resolve chain).properties)
    (hleft : ∀ name ∈ Entries.keys (left.resolve chain).properties, name ∈ Entries.keys entries)
    (hright : ∀ name ∈ Entries.keys (right.resolve chain).properties, name ∈ Entries.keys entries)
    (h : ∀ entry ∈ entries, ∀ v w, left.Materializes entry.2 v → right.Materializes entry.2 w →
      v.Equivalent w) : a.Equivalent b := by
  have hfield : ∀ n : Node, n.applicationId = (n.header .applicationId).asString? := by
    intro n
    rw [Node.header]
    cases n.applicationId <;> rfl
  have hne : Header.applicationId ≠ .typeName := by decide
  refine Node.equivalent_of_get? ha.wellFormed (ha.headerFree hafree) hb.wellFormed
    (hb.headerFree hbfree) (ha.typeName_eq.trans hb.typeName_eq.symm) ?_ ?_
  · rw [hfield a, hfield b]
    cases hget : Entries.get? Header.applicationId.name entries with
    | none => rw [ha.header_of_none hne hget, hb.header_of_none hne hget]
    | some d =>
        rw [(ha.header_of_some hne hget).asString?_eq, (hb.header_of_some hne hget).asString?_eq]
  · intro name hplain
    cases hget : Entries.get? name entries with
    | none =>
        -- There is no entry, so neither type declares the member.
        have hnot := Entries.get?_eq_none_iff.1 hget
        rw [ha.get?_of_none hplain hget, hb.get?_of_none hplain hget,
          if_neg fun hmem => hnot (hleft name hmem), if_neg fun hmem => hnot (hright name hmem)]
        exact .none
    | some d =>
        obtain ⟨v, hv, hreada⟩ := ha.get?_of_some hplain hget
        obtain ⟨w, hw, hreadb⟩ := hb.get?_of_some hplain hget
        rw [hreada, hreadb]
        exact .some (h (name, d) (Entries.mem_of_get? hget) v w hv hw)

/-- Two indexes read a document that is complete for both as equivalent values. -/
theorem equivalent_of_materializes {leftModules rightModules : List Module}
    (hleft : IsBuilt leftModules left) (hright : IsBuilt rightModules right)
    (hleftFree : left.HeaderFree) (hrightFree : right.HeaderFree) {d : Document} (hd : d.Ordered) :
    left.Complete d → right.Complete d → ∀ v w, left.Materializes d v → right.Materializes d w →
      v.Equivalent w := by
  induction hd with
  | null | bool | string | float =>
      rintro - - v w ⟨_, hv⟩ ⟨_, hw⟩
      cases hv
      cases hw
      exact .primitive rfl
  | integer n lower upper =>
      rintro - - v w ⟨_, hv⟩ ⟨_, hw⟩
      cases hv
      cases hw
      rw [Value.ofInteger]
      split <;> exact .primitive rfl
  | array _ ih =>
      rintro hcomplete hcomplete' v w ⟨_, hv⟩ ⟨_, hw⟩
      cases becomes_of_materializeAt hv with
      | array hvs =>
          cases becomes_of_materializeAt hw with
          | array hws =>
              exact .list (listEquivalent_of_forall₂ (materializeItems_eq_ok hvs)
                (materializeItems_eq_ok hws) fun item hitem =>
                  ih item hitem (hcomplete.item item hitem) (hcomplete'.item item hitem))
  | @object entries hkeys _ ih =>
      rintro hcomplete hcomplete' v w ⟨_, hv⟩ ⟨_, hw⟩
      have hentries : ∀ entry ∈ entries, ∀ v w, left.Materializes entry.2 v →
          right.Materializes entry.2 w → v.Equivalent w := fun entry hentry =>
        ih entry hentry (hcomplete.entry entry hentry) (hcomplete'.entry entry hentry)
      -- Whether an object becomes a map or a node is told by the document alone.
      cases becomes_of_materializeAt hv with
      | map hchain hvs =>
          cases becomes_of_materializeAt hw with
          | node hchain' _ => cases hchain.symm.trans hchain'
          | map _ hws =>
              have hall := materializeEntries_eq_ok hvs
              have hall' := materializeEntries_eq_ok hws
              refine Value.equivalent_map (Entries.keys_of_forall₂ hall ▸ hkeys.nodup_keys)
                (Entries.keys_of_forall₂ hall' ▸ hkeys.nodup_keys) ?_
              intro key
              exact rel_of_rel (Entries.get?_of_forall₂ hall key)
                (Entries.get?_of_forall₂ hall' key)
                fun d hget => hentries (key, d) (Entries.mem_of_get? hget)
      | @node _ chain _ hchain ha =>
          cases becomes_of_materializeAt hw with
          | map hchain' _ => cases hchain.symm.trans hchain'
          | node hchain' hb =>
              cases hchain.symm.trans hchain'
              exact .node (equivalent_filled (fill_eq_ok hkeys.nodup_keys ha)
                (fill_eq_ok hkeys.nodup_keys hb) (hleftFree _ (hleft.mem_resolve chain))
                (hrightFree _ (hright.mem_resolve chain)) (hcomplete.self hchain)
                (hcomplete'.self hchain) hentries)

/-! ## The document of a value -/

/-- A node that was filled from the document of a node is equivalent to that node, if the values of
the members are and the document has an entry for each declared member. -/
theorem equivalent_refilled (ha : a.WellFormed) (hafree : a.HeaderFree)
    (hget : ∀ name, Entries.get? name entries = a.documentAt? name)
    (hb : right.Filled entries (right.instantiateAs a.typeName) b)
    (hbfree : ∀ header : Header, header.name ∉ Entries.keys (right.resolve a.typeName).properties)
    (hright : ∀ name ∈ Entries.keys (right.resolve a.typeName).properties,
      name ∈ Entries.keys entries)
    (h : ∀ entry ∈ entries, ∀ v, (entry.1, v) ∈ a.members .all → entry.2 = v.toDocument →
      ∀ w, right.Materializes entry.2 w → v.Equivalent w) : a.Equivalent b := by
  have hne : Header.applicationId ≠ .typeName := by decide
  refine Node.equivalent_of_get? ha hafree hb.wellFormed (hb.headerFree hbfree)
    hb.typeName_eq.symm ?_ ?_
  · exact Value.ofString?_injective (header_filled hget hb hne).symm
  · intro name hplain
    have hread := hget name
    rw [Node.documentAt?, hplain] at hread
    dsimp only at hread
    cases hv : a.get? name with
    | none =>
        rw [hv] at hread
        have hnot := Entries.get?_eq_none_iff.1 hread
        rw [hb.get?_of_none hplain hread, if_neg fun hmem => hnot (hright name hmem)]
        exact .none
    | some v =>
        rw [hv] at hread
        obtain ⟨w, hw, hreadb⟩ := hb.get?_of_some hplain hread
        rw [hreadb]
        exact .some (h (name, v.toDocument) (Entries.mem_of_get? hread) v
          (Node.mem_members_of_get? hplain hv) rfl w hw)

theorem Suits.wellFormed_node {modules : List Module} (hbuilt : IsBuilt modules left)
    (hfree : left.HeaderFree) {handle : Handle} (h : left.Suits (.node handle a)) :
    a.WellFormed ∧ a.HeaderFree := by
  cases h with
  | node hreachable hdeclared _ =>
      exact ⟨hreachable.wellFormed, fun header hmem =>
        hfree _ (hbuilt.mem_resolve _) header ((hdeclared _).1 hmem)⟩

/-- A map that was read from the document of a map is equivalent to that map, if the values are. -/
theorem equivalent_reread {entries values : List (String × Value)}
    (hkeys : (Entries.keys entries).Nodup)
    (hall : List.Forall₂ (fun entry value => entry.1 = value.1 ∧ right.Materializes entry.2 value.2)
      (Entries.sorted (entryDocuments entries)) values)
    (h : ∀ entry ∈ entries,
      (entry.1, entry.2.toDocument) ∈ Entries.sorted (entryDocuments entries) →
      ∀ w, right.Materializes entry.2.toDocument w → entry.2.Equivalent w) :
    (Value.map entries).Equivalent (.map values) := by
  refine Value.equivalent_map hkeys ?_ ?_
  · rw [← Entries.keys_of_forall₂ hall]
    exact (Entries.increasing_sorted _).nodup_keys
  · intro key
    have hrel := Entries.get?_of_forall₂ hall key
    have hread := get?_sorted_entryDocuments hkeys key
    rw [hread] at hrel
    cases hget : Entries.get? key entries with
    | none =>
        rw [hget] at hrel
        generalize Entries.get? key values = found at hrel ⊢
        cases hrel
        exact .none
    | some v =>
        rw [hget, Option.map_some] at hread
        rw [hget] at hrel
        generalize Entries.get? key values = found at hrel ⊢
        cases hrel with
        | some hvalue =>
            exact .some (h (key, v) (Entries.mem_of_get? hget) (Entries.mem_of_get? hread) _ hvalue)

/-- What is read from the document of a value is equivalent to the value, if the document is
complete. The value suits one index, and the document may be read by another. -/
theorem equivalent_of_toDocument {leftModules rightModules : List Module}
    (hleft : IsBuilt leftModules left) (hright : IsBuilt rightModules right)
    (hleftFree : left.HeaderFree) (hrightFree : right.HeaderFree) {v : Value} (hv : left.Suits v) :
    right.Complete v.toDocument → ∀ w, right.Materializes v.toDocument w → v.Equivalent w := by
  induction hv with
  | null | bool | string =>
      rintro - w ⟨_, hw⟩
      cases hw
      exact .primitive rfl
  | int n =>
      rintro - w hw
      have hint : right.ReadsBack (.int n) := readsBack_int n
      cases hint.alike hw
      exact .primitive rfl
  | @float x finite =>
      rintro - w ⟨_, hw⟩
      rw [Value.toDocument, Document.ofFloat, dif_pos finite] at hw
      cases hw
      exact .primitive rfl
  | @list items _ ih =>
      intro hcomplete w hw
      rw [Value.toDocument, itemDocuments_eq_map] at hcomplete hw
      obtain ⟨_, hw⟩ := hw
      cases becomes_of_materializeAt hw with
      | array hws =>
          have hall := List.forall₂_map_left_iff.1 (materializeItems_eq_ok hws)
          have hself : List.Forall₂ (· = ·) items items := List.forall₂_same.2 fun _ _ => rfl
          refine .list (listEquivalent_of_forall₂ hself hall ?_)
          rintro item hitem v w rfl hread
          exact ih item hitem (hcomplete.item _ (List.mem_map_of_mem hitem)) w hread
  | @map entries hkeys huntyped _ ih =>
      intro hcomplete w hw
      rw [Value.toDocument, Document.ofEntries] at hcomplete hw
      obtain ⟨_, hw⟩ := hw
      have huntyped' := typeChain?_sorted hkeys huntyped
      cases becomes_of_materializeAt hw with
      | node hchain _ => cases hchain.symm.trans huntyped'
      | map _ hws =>
          refine equivalent_reread hkeys (materializeEntries_eq_ok hws) ?_
          intro entry hmem hentry
          exact ih entry hmem (hcomplete.entry _ hentry)
  | @node handle n hreachable hdeclared hmembers ih =>
      intro hcomplete w hw
      have hsuits : left.Suits (.node handle n) := .node hreachable hdeclared hmembers
      obtain ⟨hn, hfree⟩ := hsuits.wellFormed_node hleft hleftFree
      obtain ⟨entries, hdocument, hincreasing, hget, hchain⟩ := exists_typeChain? hn hfree
      rw [Value.toDocument, hdocument] at hcomplete hw
      obtain ⟨_, hw⟩ := hw
      cases becomes_of_materializeAt hw with
      | map hchain' _ => cases hchain.symm.trans hchain'
      | node hchain' hfill =>
          cases hchain.symm.trans hchain'
          refine .node (equivalent_refilled hn hfree hget (fill_eq_ok hincreasing.nodup_keys hfill)
            (hrightFree _ (hright.mem_resolve _)) (hcomplete.self hchain) ?_)
          rintro ⟨name, d⟩ hentry v hmember rfl w hread
          exact ih (name, v) hmember (hcomplete.entry _ hentry) w hread

/-! ## Nodes of documents -/

/-- The node that a document is read as: the value of the document, or, of any object, a node. -/
inductive ReadsAs (index : Index) : Document → Node → Prop
  | value {d : Document} {handle : Handle} {n : Node} :
      index.materialize d = .ok (.node handle n) → ReadsAs index d n
  | object {entries : List (String × Document)} {root : Vertex} :
      index.materializeObject entries = .ok root → ReadsAs index (.object entries) root.node

variable {index : Index} {d : Document} {n : Node}

/-- Either way, an empty node was filled with the entries of an object. -/
theorem ReadsAs.exists_fill (h : index.ReadsAs d n) :
    ∃ entries, d = .object entries ∧
      index.fill [] 0 entries
        (index.instantiateAs ((Document.typeChain? entries).getD Name.rootType)) = .ok n := by
  cases h with
  | @object entries root h =>
      obtain ⟨m, hfill, rfl⟩ := materializeObject_eq_ok h
      exact ⟨entries, rfl, hfill⟩
  | @value _ handle _ h =>
      generalize hvalue : Value.node handle n = v at h
      cases becomes_of_materializeAt h with
      | node hchain hfill =>
          cases hvalue
          exact ⟨_, rfl, by rw [hchain]; exact hfill⟩
      | integer =>
          rw [Value.ofInteger] at hvalue
          split at hvalue <;> cases hvalue
      | null | bool | float | string | array | map => cases hvalue

/-- An object with a type chain is read in the same way as a value. -/
theorem ReadsAs.materialize_eq (h : index.ReadsAs (.object entries) n)
    (hchain : Document.typeChain? entries = some chain) :
    index.materialize (.object entries) = .ok (.node ⟨[]⟩ n) := by
  obtain ⟨_, heq, hfill⟩ := h.exists_fill
  cases heq
  rw [hchain, Option.getD_some] at hfill
  rw [materialize, materializeAt, hchain]
  dsimp only
  rw [hfill]
  rfl

/-- What is read from an ordered document suits the index that read it. -/
theorem ReadsAs.suits (h : index.ReadsAs d n) (hd : d.Ordered) (handle : Handle) :
    index.Suits (.node handle n) := by
  obtain ⟨entries, rfl, hfill⟩ := h.exists_fill
  cases hd with
  | object hkeys hvalues =>
      exact suits_filled hkeys.nodup_keys hfill
        (fun entry hentry => suits_of_materializes index (hvalues entry hentry)) handle

/-- The root type declares nothing, so an object that is read as its node needs no entries. -/
theorem Complete.root {modules : List Module} (hbuilt : IsBuilt modules index)
    {entries : List (String × Document)} (h : index.Complete (.object entries)) :
    ∀ name ∈ Entries.keys
      (index.resolve ((Document.typeChain? entries).getD Name.rootType)).properties,
      name ∈ Entries.keys entries := by
  cases hchain : Document.typeChain? entries with
  | some chain => exact h.self hchain
  | none =>
      -- An object without a type chain is read as a node of the root type.
      rw [Option.getD_none, hbuilt.resolve_rootType, hbuilt.properties_fallback]
      exact fun _ hname => absurd hname List.not_mem_nil

/-- Every document is complete for an index that knows none of its types. -/
theorem complete_of_unknown {modules : List Module} (hbuilt : IsBuilt modules index)
    (h : ∀ entries ∈ d.objects, ∀ chain, Document.typeChain? entries = some chain →
      index.resolve chain = index.fallback) : index.Complete d := by
  intro entries hentries chain hchain name hname
  rw [h entries hentries chain hchain, hbuilt.properties_fallback] at hname
  exact absurd hname List.not_mem_nil

/-- Two indexes read a document that is complete for both of them as nodes with the same id. The
document of a node that one index has read is read by an index that knows none of its types, if at
all, as a node with the same id. -/
theorem computeId_without_types {leftModules rightModules : List Module}
    (hleft : build leftModules = .ok left) (hright : build rightModules = .ok right)
    (hleftFree : left.HeaderFree) (hrightFree : right.HeaderFree) {d : Document} (hd : d.Ordered)
    {n : Node} (hn : left.ReadsAs d n) :
    (left.Complete d → right.Complete d → ∀ m, right.ReadsAs d m →
      ∃ id, n.computeId = .ok id ∧ m.computeId = .ok id) ∧
    ((∀ entries ∈ n.toDocument.objects, ∀ chain, Document.typeChain? entries = some chain →
        right.resolve chain = right.fallback) →
      (∀ w, right.materialize n.toDocument = .ok w → ∃ handle m, w = .node handle m) ∧
      ∀ m, right.ReadsAs n.toDocument m → ∃ id, n.computeId = .ok id ∧ m.computeId = .ok id) := by
  have hleftBuilt := isBuilt_of_build hleft
  have hrightBuilt := isBuilt_of_build hright
  have hsuits := hn.suits hd ⟨[]⟩
  -- What was read has a content, so the ids are there and not only equal.
  have hcontent : ∃ t, n.canonicalTree = .ok t := by
    obtain ⟨t, ht⟩ := hsuits.exists_canonicalTree ""
    exact ⟨t, by rwa [Value.canonicalTree] at ht⟩
  constructor
  · intro hcomplete hcomplete' m hm
    obtain ⟨entries, rfl, hfilln⟩ := hn.exists_fill
    obtain ⟨_, heq, hfillm⟩ := hm.exists_fill
    cases heq
    cases hd with
    | object hkeys hvalues =>
        have hequivalent := equivalent_filled (fill_eq_ok hkeys.nodup_keys hfilln)
          (fill_eq_ok hkeys.nodup_keys hfillm) (hleftFree _ (hleftBuilt.mem_resolve _))
          (hrightFree _ (hrightBuilt.mem_resolve _)) (hcomplete.root hleftBuilt)
          (hcomplete'.root hrightBuilt) fun entry hentry =>
            equivalent_of_materializes hleftBuilt hrightBuilt hleftFree hrightFree
              (hvalues entry hentry) (hcomplete.entry entry hentry)
              (hcomplete'.entry entry hentry)
        exact hequivalent.exists_computeId hcontent
  · -- An index without the types finds every document complete, the node's own among them.
    intro hunknown
    have hcomplete := complete_of_unknown hrightBuilt hunknown
    have hread : ∀ w, right.materialize n.toDocument = .ok w → (Value.node ⟨[]⟩ n).Equivalent w :=
      fun w hw => equivalent_of_toDocument hleftBuilt hrightBuilt hleftFree hrightFree hsuits
        hcomplete w ⟨[], hw⟩
    refine ⟨?_, ?_⟩
    · intro w hw
      cases hread w hw with
      | primitive h => cases h
      | node _ => exact ⟨_, _, rfl⟩
    · intro m hm
      obtain ⟨hwellFormed, hheaderFree⟩ := hsuits.wellFormed_node hleftBuilt hleftFree
      obtain ⟨entries, hdocument, -, -, hchain⟩ := exists_typeChain? hwellFormed hheaderFree
      rw [hdocument] at hread hm
      cases hread _ (hm.materialize_eq hchain) with
      | primitive h => cases h
      | node h => exact h.exists_computeId hcontent

end Index

/-- A column with everything that columns declare. -/
def Document.tallEntries : List (String × Document) :=
  [("@parts", .array [samplePanel, .object [("id", .null)]]),
    ("height", .integer 3 (by decide) (by decide)), ("speckle_type", .string "Kit.Column")]

theorem Document.ordered_tallEntries : (Document.object tallEntries).Ordered := by
  cases ordered_sampleColumn with
  | object _ hvalues =>
      obtain ⟨hparts, -⟩ := List.forall_mem_cons.1 hvalues
      refine .object (by rw [Entries.Increasing]; decide) ?_
      rintro entry (_ | ⟨_, _ | ⟨_, _ | ⟨_, ⟨⟩⟩⟩⟩)
      · exact hparts
      · exact .integer _ _ _
      · exact .string _

namespace Index

/-- The column has the same id where columns are known and where they are not, and so has what comes
from its document. -/
theorem computeId_tallColumn :
    build Module.columnKit = .ok columnIndex ∧ build [] = .ok rootIndex ∧ columnIndex.HeaderFree ∧
      rootIndex.HeaderFree ∧ (Document.object Document.tallEntries).Ordered ∧
      columnIndex.Complete (.object Document.tallEntries) ∧
      rootIndex.Complete (.object Document.tallEntries) ∧
      ∃ n m k, columnIndex.ReadsAs (.object Document.tallEntries) n ∧
        rootIndex.ReadsAs (.object Document.tallEntries) m ∧ rootIndex.ReadsAs n.toDocument k ∧
        (∃ id, n.computeId = .ok id ∧ m.computeId = .ok id) ∧
        ∃ id, n.computeId = .ok id ∧ k.computeId = .ok id := by
  have hcomplete : columnIndex.Complete (.object Document.tallEntries) := by decide +kernel
  have hcomplete' : rootIndex.Complete (.object Document.tallEntries) := by decide +kernel
  have hsome : ((columnIndex.materializeObject Document.tallEntries).toOption.bind fun root =>
      (rootIndex.materialize root.node.toDocument).toOption).isSome = true := by decide +kernel
  obtain ⟨w, hw⟩ := Option.isSome_iff_exists.1 hsome
  obtain ⟨root, hroot, hw⟩ := Option.bind_eq_some_iff.1 hw
  rw [toOption_eq_some_iff] at hroot hw
  have hsome' : (rootIndex.materializeObject Document.tallEntries).toOption.isSome = true := by
    decide +kernel
  obtain ⟨other, hother⟩ := Option.isSome_iff_exists.1 hsome'
  rw [toOption_eq_some_iff] at hother
  obtain ⟨hsame, hlost⟩ := computeId_without_types build_columnKit build_nil headerFree_columnIndex
    headerFree_rootIndex Document.ordered_tallEntries (.object hroot)
  -- An index of the root alone resolves every chain to it.
  obtain ⟨hnode, hlost⟩ := hlost fun _ _ chain _ =>
    List.mem_singleton.1 ((isBuilt_of_build build_nil).mem_resolve chain)
  obtain ⟨handle, k, rfl⟩ := hnode w hw
  exact ⟨build_columnKit, build_nil, headerFree_columnIndex, headerFree_rootIndex,
    Document.ordered_tallEntries, hcomplete, hcomplete', root.node, other.node, k, .object hroot,
    .object hother, .value hw, hsame hcomplete hcomplete' _ (.object hother), hlost k (.value hw)⟩

end Index

end ObjectGraph
