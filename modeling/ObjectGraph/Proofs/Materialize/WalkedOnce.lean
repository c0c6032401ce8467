import Mathlib.Data.List.Perm.Basic
import ObjectGraph.Proofs.Document.SameTree
import ObjectGraph.Proofs.Materialize.Fill
import ObjectGraph.Proofs.Traversal.DistinctNodes

/-!
# Walking a materialized document

The objects of a document that become nodes are listed from the document alone
(`Document.nodeObjects`), each with its place, its type chain and the path to it. Walking the
materialized document shows each of them once and nothing else (`Index.walk_materializeObject`): a
node holds what its object's entries were materialized to, under their keys, and the other members
of a node hold no nodes.
-/

namespace ObjectGraph

/-- An object that becomes a node. -/
structure NodeObject where
  /-- The numbers of the entries and elements on the way to the object, innermost first. -/
  place : List Nat
  /-- The keys of the enclosing node objects, outermost first, each the one under which the next
  node object is found. -/
  path : List String
  chain : String
deriving DecidableEq, Repr

/-- What a context shows of the object that its node was made from. -/
def NodeObject.ofContext (c : Context) : NodeObject :=
  ⟨c.vertex.handle.steps, c.propertyPath.reverse, c.node.typeName⟩

mutual

/-- The node objects of the document at a place, where `path` leads to the document. An object with
a type chain adds its keys to the path; arrays and other objects add nothing. -/
def Document.nodeObjects (place : List Nat) (path : List String) : Document → List NodeObject
  | .object entries =>
      match Document.typeChain? entries with
      | some chain =>
          ⟨place, path, chain⟩ :: entryObjects place (fun key => path ++ [key]) 0 entries
      | none => entryObjects place (fun _ => path) 0 entries
  | .array items => itemObjects place path 0 items
  | .null | .bool _ | .integer .. | .float .. | .string _ => []

/-- The node objects of the elements of an array from number `i` on. -/
def itemObjects (place : List Nat) (path : List String) (i : Nat) : List Document → List NodeObject
  | [] => []
  | item :: rest => item.nodeObjects (i :: place) path ++ itemObjects place path (i + 1) rest

/-- The node objects of the entries of an object from number `i` on, where `pathAt key` leads to the
document under a key. -/
def entryObjects (place : List Nat) (pathAt : String → List String) (i : Nat) :
    List (String × Document) → List NodeObject
  | [] => []
  | (key, d) :: rest =>
      d.nodeObjects (i :: place) (pathAt key) ++ entryObjects place pathAt (i + 1) rest

end

/-- The node objects of a document that is read as a node, of the root type if it has no type
chain. -/
def rootObjects (entries : List (String × Document)) : List NodeObject :=
  ⟨[], [], (Document.typeChain? entries).getD Name.rootType⟩ ::
    entryObjects [] (fun key => [key]) 0 entries

theorem itemObjects_eq (place : List Nat) (path : List String) (i : Nat) (items : List Document) :
    itemObjects place path i items =
      (items.zipIdx i).flatMap fun x => x.1.nodeObjects (x.2 :: place) path := by
  induction items generalizing i with
  | nil => rfl
  | cons item rest ih => rw [itemObjects, List.zipIdx_cons, List.flatMap_cons, ih]

/-- The objects of entries are those of their values, each at its own place. -/
theorem entryObjects_eq (place : List Nat) (pathAt : String → List String) (i : Nat)
    (entries : List (String × Document)) :
    entryObjects place pathAt i entries =
      (entries.zipIdx i).flatMap fun x => x.1.2.nodeObjects (x.2 :: place) (pathAt x.1.1) := by
  induction entries generalizing i with
  | nil => rfl
  | cons entry rest ih => rw [entryObjects, List.zipIdx_cons, List.flatMap_cons, ih]

/-! ## Places -/

/-- Objects at distinct places, all at a place or within it. -/
structure PlacedIn (place : List Nat) (objects : List NodeObject) : Prop where
  within : ∀ o ∈ objects, place <:+ o.place
  distinct : (objects.map (·.place)).Nodup

namespace PlacedIn

variable {place : List Nat}

theorem nil : PlacedIn place [] :=
  ⟨nofun, List.nodup_nil⟩

/-- Objects in the numbered parts of a place are within the place, and none is at the place
itself. -/
theorem numbered {α : Type} {parts : List (α × Nat)} (hparts : (parts.map Prod.snd).Nodup)
    {objects : α × Nat → List NodeObject}
    (h : ∀ x ∈ parts, PlacedIn (x.2 :: place) (objects x)) :
    PlacedIn place (parts.flatMap objects) ∧ ∀ o ∈ parts.flatMap objects, o.place ≠ place := by
  -- Every object is below the number of its part.
  have hstrict : ∀ o ∈ parts.flatMap objects, ∃ i, (i :: place) <:+ o.place := by
    intro o ho
    obtain ⟨x, hx, ho⟩ := List.mem_flatMap.1 ho
    exact ⟨x.2, (h x hx).within o ho⟩
  refine ⟨⟨?_, ?_⟩, ?_⟩
  · intro o ho
    obtain ⟨i, hi⟩ := hstrict o ho
    exact (List.suffix_cons i place).trans hi
  · rw [List.map_flatMap, List.nodup_flatMap]
    refine ⟨fun x hx => (h x hx).distinct, ?_⟩
    rw [List.Nodup, List.pairwise_map] at hparts
    apply hparts.imp_of_mem
    intro x y hx hy hne p hpx hpy
    -- Two parts of different numbers cannot both be on the way to one place.
    obtain ⟨o, ho, rfl⟩ := List.mem_map.1 hpx
    obtain ⟨o', ho', heq⟩ := List.mem_map.1 hpy
    have hox := (h x hx).within o ho
    have hoy := (h y hy).within o' ho'
    rw [heq] at hoy
    have hsame :=
      List.IsSuffix.eq_of_length (List.suffix_of_suffix_length_le hox hoy (Nat.le_refl _)) rfl
    exact hne (List.cons.inj hsame).1
  · intro o ho heq
    obtain ⟨i, hi⟩ := hstrict o ho
    have hlength := hi.length_le
    rw [heq, List.length_cons] at hlength
    exact Nat.not_succ_le_self _ hlength

/-- An object at the place itself may be put in front of objects below it. -/
theorem cons {objects : List NodeObject} (h : PlacedIn place objects)
    (hne : ∀ o ∈ objects, o.place ≠ place) (path : List String) (chain : String) :
    PlacedIn place (⟨place, path, chain⟩ :: objects) := by
  refine ⟨?_, ?_⟩
  · intro o ho
    rcases List.mem_cons.1 ho with rfl | ho
    · exact List.suffix_refl _
    · exact h.within o ho
  · rw [List.map_cons, List.nodup_cons]
    refine ⟨?_, h.distinct⟩
    intro hmem
    obtain ⟨o, ho, heq⟩ := List.mem_map.1 hmem
    exact hne o ho heq

end PlacedIn

/-- The objects of entries stand below the place, and none stands at it. -/
theorem placedIn_entryObjects {entries : List (String × Document)}
    (h : ∀ entry ∈ entries, ∀ place path, PlacedIn place (entry.2.nodeObjects place path))
    (place : List Nat) (pathAt : String → List String) (i : Nat) :
    PlacedIn place (entryObjects place pathAt i entries) ∧
      ∀ o ∈ entryObjects place pathAt i entries, o.place ≠ place := by
  rw [entryObjects_eq]
  exact PlacedIn.numbered (nodup_numbers entries i) fun x hx =>
    h x.1 (List.fst_mem_of_mem_zipIdx hx) _ _

/-- The node objects of a document are at distinct places. -/
theorem Document.placedIn_nodeObjects {d : Document} (hd : d.Ordered) :
    ∀ place path, PlacedIn place (d.nodeObjects place path) := by
  induction hd with
  | null | bool | integer | float | string =>
      intro place path
      rw [nodeObjects]
      exact .nil
  | array _ ih =>
      intro place path
      rw [nodeObjects, itemObjects_eq]
      exact (PlacedIn.numbered (nodup_numbers _ 0)
        fun x hx => ih x.1 (List.fst_mem_of_mem_zipIdx hx) _ _).1
  | @object entries _ _ ih =>
      intro place path
      rw [nodeObjects]
      cases Document.typeChain? entries with
      | none => exact (placedIn_entryObjects ih place _ 0).1
      | some chain =>
          obtain ⟨hplaced, hne⟩ := placedIn_entryObjects ih place (fun key => path ++ [key]) 0
          exact hplaced.cons hne path chain

/-- The objects of a root object stand at different places. -/
theorem placedIn_rootObjects {entries : List (String × Document)}
    (hd : (Document.object entries).Ordered) : PlacedIn [] (rootObjects entries) := by
  cases hd with
  | object _ hvalues =>
      obtain ⟨hplaced, hne⟩ := placedIn_entryObjects
        (fun entry hentry => Document.placedIn_nodeObjects (hvalues entry hentry))
        [] (fun key => [key]) 0
      exact hplaced.cons hne [] _

/-! ## Nodes under the members of a filled node -/

namespace Index

variable {index : Index} {entries : List (String × Document)} {n m : Node}

/-- Each entry's value is found under its key. -/
theorem fill_written {place : List Nat} {i : Nat} (hkeys : (Entries.keys entries).Nodup)
    (h : index.fill place i entries n = .ok m) :
    ∀ x ∈ entries.zipIdx i, x.1.1 ≠ Header.typeName.name →
      ∃ v, index.materializeAt (x.2 :: place) x.1.2 = .ok v ∧ m.get? x.1.1 = some v := by
  induction entries generalizing i n with
  | nil => nofun
  | cons entry rest ih =>
      obtain ⟨key, d⟩ := entry
      rw [Entries.keys_cons, List.nodup_cons] at hkeys
      obtain ⟨hfresh, hrest⟩ := hkeys
      intro x hx hname
      rw [List.zipIdx_cons, List.mem_cons] at hx
      by_cases hkey : key = Header.typeName.name
      · rw [fill, if_pos hkey] at h
        rcases hx with rfl | hx
        · exact absurd hkey hname
        · exact ih hrest h x hx hname
      · obtain ⟨v, previous, written, hv, hset, h⟩ := fill_cons_eq_ok hkey h
        rcases hx with rfl | hx
        · -- No later entry has this key, so the value stays.
          refine ⟨v, hv, ?_⟩
          rw [(fill_eq_ok hrest h).kept key (.inr (Entries.get?_eq_none_iff.2 hfresh)),
            (Node.written_of_set hset).get?, if_pos rfl]
        · exact ih hrest h x hx hname

/-- There are no nodes but under the keys of the entries. -/
theorem Filled.under_of_none {chain name : String}
    (h : index.Filled entries (index.instantiateAs chain) m) (hname : name ∉ Entries.keys entries) :
    m.under name = [] := by
  cases hplain : Header.ofName? name with
  | some header => exact Node.under_of_header hplain
  | none =>
      have hget := h.get?_of_none hplain (Entries.get?_eq_none_iff.2 hname)
      split at hget
      · rw [Node.under_of_some hget, Value.vertices]
      · exact Node.under_of_none hget

end Index

/-- Lists without repetition give the same in parallel, up to order, if what is in only one of them
gives nothing. -/
theorem flatMap_perm_flatMap {α β : Type} [DecidableEq α] {xs ys : List α} (hx : xs.Nodup)
    (hy : ys.Nodup) {f : α → List β} (hxs : ∀ x ∈ xs, x ∉ ys → f x = [])
    (hys : ∀ y ∈ ys, y ∉ xs → f y = []) : (xs.flatMap f).Perm (ys.flatMap f) := by
  have hfilter : ∀ {l other : List α}, (∀ x ∈ l, x ∉ other → f x = []) →
      l.flatMap f = (l.filter (· ∈ other)).flatMap f := by
    intro l other hl
    induction l with
    | nil => rfl
    | cons a l ih =>
        obtain ⟨ha, hl⟩ := List.forall_mem_cons.1 hl
        by_cases hmem : a ∈ other
        · rw [List.filter_cons_of_pos (by simpa using hmem), List.flatMap_cons,
            List.flatMap_cons, ih hl]
        · rw [List.filter_cons_of_neg (by simpa using hmem), List.flatMap_cons, ha hmem, ih hl,
            List.nil_append]
  have hcommon : (xs.filter (· ∈ ys)).Perm (ys.filter (· ∈ xs)) := by
    rw [List.perm_ext_iff_of_nodup (hx.filter _) (hy.filter _)]
    intro a
    simp only [List.mem_filter, decide_eq_true_eq, and_comm]
  rw [hfilter hxs, hfilter hys]
  exact hcommon.flatMap_right f

/-! ## The walk -/

/-- What a walk shows of the nodes that a member of a context's node holds, with all that is below
them. -/
def Context.objectsUnder (c : Context) (name : String) (vertices : List Vertex) : List NodeObject :=
  vertices.flatMap fun v => (Rule.visits [] (.child v name c)).map NodeObject.ofContext

theorem Context.objectsUnder_append (c : Context) (name : String) (vs ws : List Vertex) :
    c.objectsUnder name (vs ++ ws) = c.objectsUnder name vs ++ c.objectsUnder name ws :=
  List.flatMap_append

theorem Context.map_visits (c : Context) :
    (Rule.visits [] c).map NodeObject.ofContext = NodeObject.ofContext c ::
      (c.node.memberNames .all).flatMap fun name => c.objectsUnder name (c.node.under name) := by
  rw [Rule.visits_default, List.map_cons, List.map_flatMap]
  simp only [List.map_flatMap, Context.objectsUnder]

namespace Index

/-- Whether the nodes in the values of a document are shown where the document has its node
objects. -/
def Shows (index : Index) (d : Document) : Prop :=
  ∀ place v, index.materializeAt place d = .ok v → ∀ (c : Context) (name : String),
    (c.objectsUnder name v.vertices).Perm (d.nodeObjects place (c.propertyPath.reverse ++ [name]))

variable {index : Index} {place : List Nat}

/-- What is read from an array shows the objects of its elements. -/
theorem shows_items {items : List Document} (h : ∀ item ∈ items, index.Shows item) {i : Nat}
    {values : List Value} (hvalues : index.materializeItems place i items = .ok values)
    (c : Context) (name : String) :
    (c.objectsUnder name (listVertices values)).Perm
      (itemObjects place (c.propertyPath.reverse ++ [name]) i items) := by
  induction items generalizing i values with
  | nil =>
      cases hvalues
      exact .nil
  | cons item rest ih =>
      obtain ⟨hitem, hrest⟩ := List.forall_mem_cons.1 h
      obtain ⟨v, others, hv, hothers, rfl⟩ := materializeItems_cons_eq_ok hvalues
      rw [listVertices, Context.objectsUnder_append, itemObjects]
      exact (hitem _ v hv c name).append (ih hrest hothers)

/-- What is read from entries shows the objects of their values. -/
theorem shows_entries {entries : List (String × Document)}
    (h : ∀ entry ∈ entries, index.Shows entry.2) {i : Nat} {values : List (String × Value)}
    (hvalues : index.materializeEntries place i entries = .ok values) (c : Context)
    (name : String) :
    (c.objectsUnder name (entryVertices values)).Perm
      (entryObjects place (fun _ => c.propertyPath.reverse ++ [name]) i entries) := by
  induction entries generalizing i values with
  | nil =>
      cases hvalues
      exact .nil
  | cons entry rest ih =>
      obtain ⟨key, d⟩ := entry
      obtain ⟨hentry, hrest⟩ := List.forall_mem_cons.1 h
      obtain ⟨v, others, hv, hothers, rfl⟩ := materializeEntries_cons_eq_ok hvalues
      rw [entryVertices, Context.objectsUnder_append, entryObjects]
      exact (hentry _ v hv c name).append (ih hrest hothers)

/-- The members of a filled node show what its entries have. A member without an entry shows
nothing, and neither does the entry of the type chain, which is a text. -/
theorem shows_fill {entries : List (String × Document)} (hkeys : (Entries.keys entries).Nodup)
    (h : ∀ entry ∈ entries, index.Shows entry.2)
    (htext : ∀ d, Entries.get? Header.typeName.name entries = some d → ∃ s, d = .string s)
    {chain : String} {i : Nat} {m : Node}
    (hfill : index.fill place i entries (index.instantiateAs chain) = .ok m) (c : Context) :
    ((m.memberNames .all).flatMap fun name => c.objectsUnder name (m.under name)).Perm
      (entryObjects place (fun key => c.propertyPath.reverse ++ [key]) i entries) := by
  have hfilled := fill_eq_ok hkeys hfill
  have hmembers : ((m.memberNames .all).flatMap fun name => c.objectsUnder name (m.under name)).Perm
      ((Entries.keys entries).flatMap fun name => c.objectsUnder name (m.under name)) := by
    apply flatMap_perm_flatMap hfilled.wellFormed.nodup_memberNames hkeys
    · intro name _ hname
      rw [hfilled.under_of_none hname]
      rfl
    · intro name _ hname
      rw [Node.under_of_not_mem hname]
      rfl
  refine hmembers.trans ?_
  -- What is left runs over the entries in order, with the numbers that make up the places.
  have hentries : Entries.keys entries = (entries.zipIdx i).map fun x => x.1.1 := by
    have hfirst := congrArg Entries.keys (List.zipIdx_map_fst i entries)
    rw [Entries.keys, List.map_map] at hfirst
    exact hfirst.symm
  rw [hentries, List.flatMap_map, entryObjects_eq]
  apply List.Perm.flatMap_left
  intro x hx
  have hmem := List.fst_mem_of_mem_zipIdx hx
  by_cases hname : x.1.1 = Header.typeName.name
  · obtain ⟨s, hs⟩ := htext x.1.2 (Entries.get?_of_mem hkeys (hname ▸ hmem))
    rw [hname, Node.under_of_header (Header.ofName?_name _), hs, Document.nodeObjects]
    exact .nil
  · obtain ⟨v, hv, hget⟩ := fill_written hkeys hfill x hx hname
    rw [Node.under_of_some hget]
    exact h x.1 hmem _ v hv c x.1.1

theorem asString?_eq_some {d : Document} {s : String} (h : d.asString? = some s) :
    d = .string s := by
  cases d with
  | string t =>
      cases h
      rfl
  | _ => cases h

/-- The nodes of an ordered document are shown where it has its node objects. -/
theorem shows_of_ordered (index : Index) {d : Document} (hd : d.Ordered) : index.Shows d := by
  induction hd with
  | null | bool | string | float =>
      intro place v hv c name
      cases hv
      exact .nil
  | integer n lower upper =>
      intro place v hv c name
      cases hv
      rw [Value.ofInteger]
      split
      · exact .nil
      · exact .nil
  | array _ ih =>
      intro place v hv c name
      cases becomes_of_materializeAt hv with
      | array hvalues =>
          rw [Value.vertices, Document.nodeObjects]
          exact shows_items ih hvalues c name
  | @object entries hkeys _ ih =>
      intro place v hv c name
      rw [Document.nodeObjects]
      cases becomes_of_materializeAt hv with
      | map hchain hvalues =>
          rw [hchain, Value.vertices]
          exact shows_entries ih hvalues c name
      | @node _ chain m hchain hfill =>
          have htext : ∀ d, Entries.get? Header.typeName.name entries = some d →
              ∃ s, d = .string s := by
            intro d hget
            rw [Document.typeChain?, hget] at hchain
            exact ⟨chain, asString?_eq_some hchain⟩
          rw [hchain]
          have hname := (fill_eq_ok hkeys.nodup_keys hfill).typeName_eq
          -- The one node is shown first, with the path through this member.
          have hbelow := shows_fill hkeys.nodup_keys ih htext hfill (.child ⟨⟨place⟩, m⟩ name c)
          rw [Context.propertyPath, List.reverse_cons] at hbelow
          rw [Value.vertices, Context.objectsUnder, List.flatMap_singleton, Context.map_visits,
            NodeObject.ofContext, Context.node, Context.vertex, hname, Context.propertyPath,
            List.reverse_cons]
          exact hbelow.cons _

end Index

/-- If an object whose type chain, if it has one, is a text is read as a node, then the walk from
the node returns, up to order, one context for the object and one for each node object in it, at any
depth, and ends. The context has the object's place as its handle, the object's type chain and the
path to the object. No two contexts have the same handle, so as many nodes are listed. -/
theorem Index.walk_materializeObject (index : Index) {entries : List (String × Document)}
    (hd : (Document.object entries).Ordered)
    (htext : ∀ d, Entries.get? Header.typeName.name entries = some d → ∃ s, d = .string s)
    {root : Vertex} (hroot : index.materializeObject entries = .ok root) :
    ∃ contexts, (Walk.start [] root).Returns contexts ∧
      (contexts.map NodeObject.ofContext).Perm (rootObjects entries) ∧
      ((rootObjects entries).map (·.place)).Nodup ∧
      (flatten root).length = contexts.length := by
  have hplaced := placedIn_rootObjects hd
  obtain ⟨m, hfill, rfl⟩ := materializeObject_eq_ok hroot
  have hperm : (((Walk.start [] ⟨⟨[]⟩, m⟩).toList).map NodeObject.ofContext).Perm
      (rootObjects entries) := by
    cases hd with
    | object hkeys hvalues =>
        have hname := (fill_eq_ok hkeys.nodup_keys hfill).typeName_eq
        have hshown := Walk.shownFrom_perm [] [.root ⟨⟨[]⟩, m⟩]
        rw [List.flatMap_singleton] at hshown
        refine (hshown.map NodeObject.ofContext).trans ?_
        rw [Context.map_visits, NodeObject.ofContext, Context.node, Context.vertex, hname,
          rootObjects]
        exact (shows_fill hkeys.nodup_keys (fun entry hentry =>
          shows_of_ordered index (hvalues entry hentry))
          htext hfill (.root ⟨⟨[]⟩, m⟩)).cons _
  -- The handles are the places of the objects, and these are distinct.
  have hhandles :
      ((((Walk.start [] ⟨⟨[]⟩, m⟩).toList).map Context.vertex).map Vertex.handle).Nodup := by
    have hplaces := (hperm.map (·.place)).nodup_iff.2 hplaced.distinct
    rw [List.map_map] at hplaces
    apply List.Nodup.of_map Handle.steps
    rw [List.map_map, List.map_map]
    exact hplaces
  refine ⟨_, Walk.returns_iff.2 rfl, hperm, hplaced.distinct, ?_⟩
  rw [flatten, distinctVertices_eq_self (fun _ _ => List.not_mem_nil) hhandles, List.length_map]

namespace Document

/-- A bolt with its nut. -/
def sampleBolt : Document :=
  .object [("nut", .object [("speckle_type", .string "Kit.Nut")]),
    ("speckle_type", .string "Kit.Bolt")]

/-- A column with two bolts, the first in a box without a type. -/
def boltedEntries : List (String × Document) :=
  [("@parts", .array [.object [("box", sampleBolt)], sampleBolt]),
    ("speckle_type", .string "Kit.Column")]

theorem ordered_boltedEntries : (Document.object boltedEntries).Ordered := by
  have hbolt : sampleBolt.Ordered := by
    refine .object (by rw [Entries.Increasing]; decide) ?_
    rintro entry (_ | ⟨_, _ | ⟨_, ⟨⟩⟩⟩)
    · refine .object (List.pairwise_singleton _ _) ?_
      rintro entry (_ | ⟨_, ⟨⟩⟩)
      exact .string _
    · exact .string _
  refine .object (by rw [Entries.Increasing]; decide) ?_
  rintro entry (_ | ⟨_, _ | ⟨_, ⟨⟩⟩⟩)
  · refine .array ?_
    rintro item (_ | ⟨_, _ | ⟨_, ⟨⟩⟩⟩)
    · refine .object (List.pairwise_singleton _ _) ?_
      rintro entry (_ | ⟨_, ⟨⟩⟩)
      exact hbolt
    · exact hbolt
  · exact .string _

end Document

theorem Index.walk_boltedEntries :
    (Document.object Document.boltedEntries).Ordered ∧
      (∀ d, Entries.get? Header.typeName.name Document.boltedEntries = some d →
        ∃ s, d = .string s) ∧
      ∃ root, columnIndex.materializeObject Document.boltedEntries = .ok root ∧
        ∃ contexts, (Walk.start [] root).Returns contexts ∧
          (contexts.map NodeObject.ofContext).Perm
            [⟨[], [], "Kit.Column"⟩,
              ⟨[0, 0, 0], ["@parts"], "Kit.Bolt"⟩, ⟨[0, 0, 0, 0], ["@parts", "nut"], "Kit.Nut"⟩,
              ⟨[1, 0], ["@parts"], "Kit.Bolt"⟩, ⟨[0, 1, 0], ["@parts", "nut"], "Kit.Nut"⟩] := by
  have hsome : (columnIndex.materializeObject Document.boltedEntries).toOption.isSome = true := by
    decide +kernel
  obtain ⟨root, hroot⟩ := Option.isSome_iff_exists.1 hsome
  rw [toOption_eq_some_iff] at hroot
  have htext : ∀ d, Entries.get? Header.typeName.name Document.boltedEntries = some d →
      ∃ s, d = .string s := by
    rintro d ⟨⟩
    exact ⟨_, rfl⟩
  obtain ⟨contexts, hreturns, hperm, -, -⟩ :=
    walk_materializeObject columnIndex Document.ordered_boltedEntries htext hroot
  exact ⟨Document.ordered_boltedEntries, htext, root, hroot, contexts, hreturns, hperm⟩

end ObjectGraph
