import ObjectGraph.Materialize
import ObjectGraph.Proofs.Node.Rendering
import ObjectGraph.Proofs.Registry.Resolution

/-!
# The parts of a materialized document

What materializing gives for the elements of an array, the entries of a map and the members of a
node, said of the values of the parts. The value of a document depends on its place only through the
handles of the nodes in it, so a part is related to its value by `Index.Materializes`, which leaves
the place open.

A node is filled by writing one entry after the other (`Index.fill_eq_ok`): each name is written
once, so its value is that of its entry, and the other names keep what they had in the empty node.
-/

namespace ObjectGraph

namespace Entries

/-! ## Entries in parallel -/

section Parallel

variable {α β : Type} {R : α → β → Prop} {xs : List (String × α)} {ys : List (String × β)}

theorem keys_of_forall₂ (h : List.Forall₂ (fun x y => x.1 = y.1 ∧ R x.2 y.2) xs ys) :
    keys xs = keys ys := by
  induction h with
  | nil => rfl
  | cons hxy _ ih => rw [keys, keys, List.map_cons, List.map_cons, hxy.1, ← keys, ← keys, ih]

/-- Entries that are related one by one are related key by key. -/
theorem get?_of_forall₂ (h : List.Forall₂ (fun x y => x.1 = y.1 ∧ R x.2 y.2) xs ys) (k : String) :
    Option.Rel R (get? k xs) (get? k ys) := by
  induction h with
  | nil => exact .none
  | @cons x y xs ys hxy _ ih =>
      obtain ⟨key, a⟩ := x
      obtain ⟨key', b⟩ := y
      obtain ⟨rfl, hab⟩ := hxy
      rw [get?_cons, get?_cons]
      split
      · exact .some hab
      · exact ih

end Parallel

end Entries

namespace Index

variable {index : Index}

/-- The value of a document, at some place. -/
def Materializes (index : Index) (d : Document) (v : Value) : Prop :=
  ∃ place, index.materializeAt place d = .ok v

/-- What the document at a place becomes, form by form. -/
inductive Becomes (index : Index) (place : List Nat) : Document → Value → Prop
  | null : Becomes index place .null .null
  | bool (b : Bool) : Becomes index place (.bool b) (.bool b)
  | integer (n : Int) (lower : -integerBound ≤ n) (upper : n < 2 * integerBound) :
      Becomes index place (.integer n lower upper) (Value.ofInteger n)
  | float (x : Binary64) (finite : x.isFinite = true) :
      Becomes index place (.float x finite) (.float x)
  | string (s : String) : Becomes index place (.string s) (.string s)
  | array {items : List Document} {values : List Value} :
      index.materializeItems place 0 items = .ok values →
        Becomes index place (.array items) (.list values)
  | map {entries : List (String × Document)} {values : List (String × Value)} :
      Document.typeChain? entries = none → index.materializeEntries place 0 entries = .ok values →
        Becomes index place (.object entries) (.map values)
  | node {entries : List (String × Document)} {chain : String} {m : Node} :
      Document.typeChain? entries = some chain →
        index.fill place 0 entries (index.instantiateAs chain) = .ok m →
          Becomes index place (.object entries) (.node ⟨place⟩ m)

/-- What the reader makes of a document it can read. -/
theorem becomes_of_materializeAt {place : List Nat} {d : Document} {v : Value}
    (h : index.materializeAt place d = .ok v) : index.Becomes place d v := by
  cases d with
  | null =>
      cases h
      exact .null
  | bool b =>
      cases h
      exact .bool b
  | integer n lower upper =>
      cases h
      exact .integer n lower upper
  | float x finite =>
      cases h
      exact .float x finite
  | string s =>
      cases h
      exact .string s
  | array items =>
      obtain ⟨values, hvalues, rfl⟩ := bind_pure_eq_ok_iff.1 h
      exact .array hvalues
  | object entries =>
      rw [materializeAt] at h
      split at h
      · rename_i chain hchain
        obtain ⟨m, hfill, rfl⟩ := bind_pure_eq_ok_iff.1 h
        exact .node hchain hfill
      · rename_i hchain
        obtain ⟨values, hvalues, rfl⟩ := bind_pure_eq_ok_iff.1 h
        exact .map hchain hvalues

/-- Where the document at a place fails: in the elements of an array, the entries of a map or the
members of a node. -/
inductive Fails (index : Index) (place : List Nat) : Document → PropertyError → Prop
  | array {items : List Document} {error : PropertyError} :
      index.materializeItems place 0 items = .error error → Fails index place (.array items) error
  | map {entries : List (String × Document)} {error : PropertyError} :
      Document.typeChain? entries = none → index.materializeEntries place 0 entries = .error error →
        Fails index place (.object entries) error
  | node {entries : List (String × Document)} {chain : String} {error : PropertyError} :
      Document.typeChain? entries = some chain →
        index.fill place 0 entries (index.instantiateAs chain) = .error error →
          Fails index place (.object entries) error

/-- Where the reader fails on a document it cannot read. -/
theorem fails_of_materializeAt {place : List Nat} {d : Document} {error : PropertyError}
    (h : index.materializeAt place d = .error error) : index.Fails place d error := by
  cases d with
  | null | bool | integer | float | string => cases h
  | array items => exact .array (bind_pure_eq_error_iff.1 h)
  | object entries =>
      rw [materializeAt] at h
      split at h
      · rename_i chain hchain
        exact .node hchain (bind_pure_eq_error_iff.1 h)
      · rename_i hchain
        exact .map hchain (bind_pure_eq_error_iff.1 h)

theorem materializeObject_eq_ok {entries : List (String × Document)} {root : Vertex}
    (h : index.materializeObject entries = .ok root) :
    ∃ m,
      index.fill [] 0 entries
        (index.instantiateAs ((Document.typeChain? entries).getD Name.rootType)) = .ok m ∧
      root = ⟨⟨[]⟩, m⟩ := by
  obtain ⟨m, hfill, rfl⟩ := bind_pure_eq_ok_iff.1 h
  exact ⟨m, hfill, rfl⟩

/-! ## Arrays and maps -/

/-- The elements are read one after the other, each at its own place. -/
theorem materializeItems_cons_eq_ok {place : List Nat} {i : Nat} {item : Document}
    {rest : List Document} {values : List Value}
    (h : index.materializeItems place i (item :: rest) = .ok values) :
    ∃ v others, index.materializeAt (i :: place) item = .ok v ∧
      index.materializeItems place (i + 1) rest = .ok others ∧ values = v :: others := by
  obtain ⟨v, hv, h⟩ := bind_eq_ok_iff.1 h
  obtain ⟨others, hothers, rfl⟩ := bind_pure_eq_ok_iff.1 h
  exact ⟨v, others, hv, hothers, rfl⟩

/-- The entries are read one after the other, each at its own place. -/
theorem materializeEntries_cons_eq_ok {place : List Nat} {i : Nat} {key : String} {d : Document}
    {rest : List (String × Document)} {values : List (String × Value)}
    (h : index.materializeEntries place i ((key, d) :: rest) = .ok values) :
    ∃ v others, index.materializeAt (i :: place) d = .ok v ∧
      index.materializeEntries place (i + 1) rest = .ok others ∧ values = (key, v) :: others := by
  obtain ⟨v, hv, h⟩ := bind_eq_ok_iff.1 h
  obtain ⟨others, hothers, rfl⟩ := bind_pure_eq_ok_iff.1 h
  exact ⟨v, others, hv, hothers, rfl⟩

/-- The values of an array are those of its elements. -/
theorem materializeItems_eq_ok {place : List Nat} {i : Nat} {items : List Document}
    {values : List Value} (h : index.materializeItems place i items = .ok values) :
    List.Forall₂ index.Materializes items values := by
  induction items generalizing i values with
  | nil =>
      cases h
      exact .nil
  | cons item rest ih =>
      obtain ⟨v, others, hv, hothers, rfl⟩ := materializeItems_cons_eq_ok h
      exact .cons ⟨_, hv⟩ (ih hothers)

/-- An array fails at its first element that fails. -/
theorem materializeItems_eq_error {place : List Nat} {i : Nat} {items : List Document}
    {error : PropertyError} (h : index.materializeItems place i items = .error error) :
    ∃ before item after, items = before ++ item :: after ∧
      (∀ d ∈ before, ∃ v, index.Materializes d v) ∧
      ∃ place, index.materializeAt place item = .error error := by
  induction items generalizing i with
  | nil => cases h
  | cons item rest ih =>
      rcases bind_eq_error_iff.1 h with hitem | ⟨v, hv, hrest⟩
      · exact ⟨[], item, rest, rfl, List.forall_mem_nil _, _, hitem⟩
      · obtain ⟨before, item', after, rfl, hbefore, hfails⟩ := ih (bind_pure_eq_error_iff.1 hrest)
        exact ⟨item :: before, item', after, rfl,
          List.forall_mem_cons.2 ⟨⟨v, _, hv⟩, hbefore⟩, hfails⟩

/-- An array can be read if its elements can. -/
theorem exists_materializeItems {items : List Document}
    (h : ∀ item ∈ items, ∀ place, ∃ v, index.materializeAt place item = .ok v) (place : List Nat)
    (i : Nat) : ∃ values, index.materializeItems place i items = .ok values := by
  induction items generalizing i with
  | nil => exact ⟨[], rfl⟩
  | cons item rest ih =>
      obtain ⟨hitem, hrest⟩ := List.forall_mem_cons.1 h
      obtain ⟨v, hv⟩ := hitem (i :: place)
      obtain ⟨others, hothers⟩ := ih hrest (i + 1)
      exact ⟨v :: others, by rw [materializeItems, hv, ok_bind, hothers, ok_bind]; rfl⟩

/-- A map keeps its keys in order. -/
theorem materializeEntries_eq_ok {place : List Nat} {i : Nat} {entries : List (String × Document)}
    {values : List (String × Value)} (h : index.materializeEntries place i entries = .ok values) :
    List.Forall₂ (fun entry value => entry.1 = value.1 ∧ index.Materializes entry.2 value.2)
      entries values := by
  induction entries generalizing i values with
  | nil =>
      cases h
      exact .nil
  | cons entry rest ih =>
      obtain ⟨v, others, hv, hothers, rfl⟩ := materializeEntries_cons_eq_ok h
      exact .cons ⟨rfl, _, hv⟩ (ih hothers)

/-- A map fails at its first entry that fails. -/
theorem materializeEntries_eq_error {place : List Nat} {i : Nat}
    {entries : List (String × Document)} {error : PropertyError}
    (h : index.materializeEntries place i entries = .error error) :
    ∃ before key d after, entries = before ++ (key, d) :: after ∧
      (∀ entry ∈ before, ∃ v, index.Materializes entry.2 v) ∧
      ∃ place, index.materializeAt place d = .error error := by
  induction entries generalizing i with
  | nil => cases h
  | cons entry rest ih =>
      obtain ⟨key, d⟩ := entry
      rcases bind_eq_error_iff.1 h with hentry | ⟨v, hv, hrest⟩
      · exact ⟨[], key, d, rest, rfl, List.forall_mem_nil _, _, hentry⟩
      · obtain ⟨before, key', d', after, rfl, hbefore, hfails⟩ :=
          ih (bind_pure_eq_error_iff.1 hrest)
        exact ⟨(key, d) :: before, key', d', after, rfl,
          List.forall_mem_cons.2 ⟨⟨v, _, hv⟩, hbefore⟩, hfails⟩

/-- A map can be read if its values can. -/
theorem exists_materializeEntries {entries : List (String × Document)}
    (h : ∀ entry ∈ entries, ∀ place, ∃ v, index.materializeAt place entry.2 = .ok v)
    (place : List Nat) (i : Nat) :
    ∃ values, index.materializeEntries place i entries = .ok values := by
  induction entries generalizing i with
  | nil => exact ⟨[], rfl⟩
  | cons entry rest ih =>
      obtain ⟨key, d⟩ := entry
      obtain ⟨hentry, hrest⟩ := List.forall_mem_cons.1 h
      obtain ⟨v, hv⟩ := hentry (i :: place)
      obtain ⟨others, hothers⟩ := ih hrest (i + 1)
      exact ⟨(key, v) :: others, by rw [materializeEntries, hv, ok_bind, hothers, ok_bind]; rfl⟩

/-! ## Members of a node -/

/-- What is read in a node that was filled from entries: an entry's value under its name, and what
was there before under the type chain's name and where there is no entry. -/
structure Filled (index : Index) (entries : List (String × Document)) (n m : Node) : Prop where
  written : ∀ name d, name ≠ Header.typeName.name → Entries.get? name entries = some d →
    ∃ v, index.Materializes d v ∧ m.get? name = some v
  kept : ∀ name, name = Header.typeName.name ∨ Entries.get? name entries = none →
    m.get? name = n.get? name
  declared : Entries.keys m.declared = Entries.keys n.declared
  reachable : n.Reachable → m.Reachable

/-- Filling reads an entry, writes it, and goes on with the written node. -/
theorem fill_cons_eq_ok {place : List Nat} {i : Nat} {key : String} {d : Document}
    {rest : List (String × Document)} {n m : Node} (hkey : key ≠ Header.typeName.name)
    (h : index.fill place i ((key, d) :: rest) n = .ok m) :
    ∃ v previous written, index.materializeAt (i :: place) d = .ok v ∧
      n.set key v = .ok (previous, written) ∧ index.fill place (i + 1) rest written = .ok m := by
  rw [fill, if_neg hkey] at h
  obtain ⟨v, hv, h⟩ := bind_eq_ok_iff.1 h
  obtain ⟨⟨previous, written⟩, hset, h⟩ := bind_eq_ok_iff.1 h
  exact ⟨v, previous, written, hv, hset, h⟩

/-- The entry of the type chain is skipped, so the others decide. -/
theorem Filled.skip {entries : List (String × Document)} {n m : Node} (d : Document)
    (h : index.Filled entries n m) : index.Filled ((Header.typeName.name, d) :: entries) n m where
  written name e hname hget := by
    rw [Entries.get?_cons, if_neg (Ne.symm hname)] at hget
    exact h.written name e hname hget
  kept := by
    rintro name (hname | hget)
    · exact h.kept name (.inl hname)
    · rw [Entries.get?_cons] at hget
      split at hget
      · cases hget
      · exact h.kept name (.inr hget)
  declared := h.declared
  reachable := h.reachable

/-- An entry that is written first keeps its value, since no other entry has its key. -/
theorem Filled.write {key : String} {d : Document} {entries : List (String × Document)}
    {n written m : Node} {v : Value} {previous : Option Value}
    (hkey : key ≠ Header.typeName.name) (hfresh : key ∉ Entries.keys entries)
    (hv : index.Materializes d v) (hset : n.set key v = .ok (previous, written))
    (h : index.Filled entries written m) : index.Filled ((key, d) :: entries) n m where
  written name e hname hget := by
    rw [Entries.get?_cons] at hget
    split at hget
    · rename_i heq
      subst heq
      cases hget
      refine ⟨v, hv, ?_⟩
      rw [h.kept key (.inr (Entries.get?_eq_none_iff.2 hfresh)), (Node.written_of_set hset).get?,
        if_pos rfl]
    · exact h.written name e hname hget
  kept name hname := by
    have hne : key ≠ name := by
      rintro rfl
      rcases hname with heq | hget
      · exact hkey heq
      · rw [Entries.get?_cons, if_pos rfl] at hget
        cases hget
    rw [Entries.get?_cons, if_neg hne] at hname
    rw [h.kept name hname, (Node.written_of_set hset).get?, if_neg hne]
  declared := h.declared.trans (Node.written_of_set hset).declared
  reachable hn := h.reachable (hn.set hset)

/-- What filling leaves is said without the order of the writes: each key stands once, so no write
undoes another. -/
theorem fill_eq_ok {place : List Nat} {i : Nat} {entries : List (String × Document)} {n m : Node}
    (hkeys : (Entries.keys entries).Nodup) (h : index.fill place i entries n = .ok m) :
    index.Filled entries n m := by
  induction entries generalizing i n with
  | nil =>
      cases h
      refine ⟨?_, fun _ _ => rfl, rfl, id⟩
      intro name d _ hget
      cases hget
  | cons entry rest ih =>
      obtain ⟨key, d⟩ := entry
      rw [Entries.keys_cons, List.nodup_cons] at hkeys
      obtain ⟨hfresh, hrest⟩ := hkeys
      by_cases hkey : key = Header.typeName.name
      · rw [fill, if_pos hkey] at h
        subst hkey
        exact (ih hrest h).skip d
      · obtain ⟨v, previous, written, hv, hset, h⟩ := fill_cons_eq_ok hkey h
        exact (ih hrest h).write hkey hfresh ⟨_, hv⟩ hset

/-- A node is filled if every entry has a value that the node accepts. -/
theorem exists_fill {entries : List (String × Document)} {n : Node}
    (h : ∀ entry ∈ entries, entry.1 ≠ Header.typeName.name → ∀ place, ∃ v,
      index.materializeAt place entry.2 = .ok v ∧ n.Accepts entry.1 v)
    (place : List Nat) (i : Nat) : ∃ m, index.fill place i entries n = .ok m := by
  induction entries generalizing i n with
  | nil => exact ⟨n, rfl⟩
  | cons entry rest ih =>
      obtain ⟨key, d⟩ := entry
      obtain ⟨hentry, hrest⟩ := List.forall_mem_cons.1 h
      rw [fill]
      split
      · exact ih hrest (i + 1)
      · rename_i hkey
        obtain ⟨v, hv, haccepts⟩ := hentry hkey (i :: place)
        obtain ⟨previous, written, hset⟩ := Node.exists_set_iff.2 haccepts
        -- The write leaves the declared names, so the other entries are accepted as before.
        have hdeclared := (Node.written_of_set hset).declared
        have hothers : ∀ other ∈ rest, other.1 ≠ Header.typeName.name → ∀ place, ∃ w,
            index.materializeAt place other.2 = .ok w ∧ written.Accepts other.1 w := by
          intro other hother hne place
          obtain ⟨w, hw, haccepts⟩ := hrest other hother hne place
          exact ⟨w, hw, (Node.accepts_congr hdeclared).2 haccepts⟩
        obtain ⟨m, hm⟩ := ih hothers (i + 1)
        exact ⟨m, by rw [hv, ok_bind, hset, ok_bind]; exact hm⟩

/-- A node that was filled has accepted the values of all entries. -/
theorem accepts_of_fill {place : List Nat} {i : Nat} {entries : List (String × Document)}
    {n m : Node} (h : index.fill place i entries n = .ok m) :
    ∀ entry ∈ entries, entry.1 ≠ Header.typeName.name →
      ∃ v, index.Materializes entry.2 v ∧ n.Accepts entry.1 v := by
  induction entries generalizing i n with
  | nil => exact List.forall_mem_nil _
  | cons entry rest ih =>
      obtain ⟨key, d⟩ := entry
      by_cases hkey : key = Header.typeName.name
      · rw [fill, if_pos hkey] at h
        exact List.forall_mem_cons.2 ⟨fun hne => absurd hkey hne, ih h⟩
      · obtain ⟨v, previous, written, hv, hset, h⟩ := fill_cons_eq_ok hkey h
        refine List.forall_mem_cons.2
          ⟨fun _ => ⟨v, ⟨_, hv⟩, Node.exists_set_iff.1 ⟨_, _, hset⟩⟩, ?_⟩
        intro other hother hne
        obtain ⟨w, hw, haccepts⟩ := ih h other hother hne
        exact ⟨w, hw, (Node.accepts_congr (Node.written_of_set hset).declared).1 haccepts⟩

/-- Filling fails at the first entry that does not go in: at its document, or because a node with
the same declared members refuses its value. The values of the entries before it are accepted. -/
theorem fill_eq_error {place : List Nat} {i : Nat} {entries : List (String × Document)} {n : Node}
    {error : PropertyError} (h : index.fill place i entries n = .error error) :
    ∃ before key d after, entries = before ++ (key, d) :: after ∧ key ≠ Header.typeName.name ∧
      (∀ entry ∈ before, entry.1 ≠ Header.typeName.name →
        ∃ v, index.Materializes entry.2 v ∧ n.Accepts entry.1 v) ∧
      ∃ place, index.materializeAt place d = .error error ∨
        ∃ v, ∃ m : Node, index.materializeAt place d = .ok v ∧ m.set key v = .error error ∧
          Entries.keys m.declared = Entries.keys n.declared := by
  induction entries generalizing i n with
  | nil => cases h
  | cons entry rest ih =>
      obtain ⟨key, d⟩ := entry
      rw [fill] at h
      split at h
      · rename_i hkey
        obtain ⟨before, key', d', after, rfl, hne, hbefore, hfails⟩ := ih h
        refine ⟨(key, d) :: before, key', d', after, rfl, hne, ?_, hfails⟩
        exact List.forall_mem_cons.2 ⟨fun hne => absurd hkey hne, hbefore⟩
      · rename_i hkey
        rcases bind_eq_error_iff.1 h with hd | ⟨v, hv, hrest⟩
        · exact ⟨[], key, d, rest, rfl, hkey, List.forall_mem_nil _, _, .inl hd⟩
        rcases bind_eq_error_iff.1 hrest with hset | ⟨⟨previous, written⟩, hset, hrest⟩
        · exact ⟨[], key, d, rest, rfl, hkey, List.forall_mem_nil _, _, .inr ⟨v, n, hv, hset, rfl⟩⟩
        · -- The write leaves the declared names, so what the rest says of the new node holds of the
          -- old one.
          have hdeclared := (Node.written_of_set hset).declared
          obtain ⟨before, key', d', after, rfl, hne, hbefore, hfails⟩ := ih hrest
          rw [hdeclared] at hfails
          refine ⟨(key, d) :: before, key', d', after, rfl, hne,
            List.forall_mem_cons.2 ⟨?_, ?_⟩, hfails⟩
          · exact fun _ => ⟨v, ⟨_, hv⟩, Node.exists_set_iff.1 ⟨_, _, hset⟩⟩
          · intro other hother hother'
            obtain ⟨w, hw, haccepts⟩ := hbefore other hother hother'
            exact ⟨w, hw, (Node.accepts_congr hdeclared).1 haccepts⟩

/-! ## Empty nodes -/

theorem reachable_instantiateAs (index : Index) (chain : String) :
    (index.instantiateAs chain).Reachable :=
  .setTypeName chain (Node.reachable_withMembers _ _)

/-- The declared members of an empty node are the properties of the type that its chain
resolves to. -/
theorem mem_declared_instantiateAs {chain name : String} :
    name ∈ Entries.keys (index.instantiateAs chain).declared ↔
      name ∈ Entries.keys (index.resolve chain).properties :=
  Node.mem_declared_withMembers

/-- The other header fields of an empty node are null. -/
theorem header_instantiateAs {chain : String} {header : Header} (h : header ≠ .typeName) :
    (index.instantiateAs chain).header header = .null := by
  rw [instantiateAs, Node.header_setTypeName _ _ h, Descriptor.instantiate, Node.header_withMembers]
  cases header with
  | typeName => exact absurd rfl h
  | id => rfl
  | applicationId => rfl

/-- The members of an empty node are null. -/
theorem get?_instantiateAs_of_plain {chain name : String} (h : Header.ofName? name = none) :
    (index.instantiateAs chain).get? name =
      if name ∈ Entries.keys (index.resolve chain).properties then some .null else none := by
  obtain ⟨hdynamic, hdeclared⟩ := Node.withMembers_members (index.resolve chain).discriminator
    (Entries.keys (index.resolve chain).properties)
  rw [Node.get?_of_plain h, instantiateAs, Descriptor.instantiate]
  dsimp only
  rw [hdynamic, hdeclared, Entries.get?_nil, Option.or_none]

/-! ## Materialized nodes -/

/-- No type of the index declares a member with the name of a header field. -/
def HeaderFree (index : Index) : Prop :=
  ∀ d ∈ index.descriptors, ∀ header : Header, header.name ∉ Entries.keys d.properties

section Materialized

variable {entries : List (String × Document)} {chain name : String} {m : Node}

theorem Filled.wellFormed (h : index.Filled entries (index.instantiateAs chain) m) : m.WellFormed :=
  (h.reachable (reachable_instantiateAs index chain)).wellFormed

theorem Filled.mem_declared_iff (h : index.Filled entries (index.instantiateAs chain) m) :
    name ∈ Entries.keys m.declared ↔ name ∈ Entries.keys (index.resolve chain).properties := by
  rw [h.declared]
  exact mem_declared_instantiateAs

theorem Filled.headerFree (h : index.Filled entries (index.instantiateAs chain) m)
    (hfree : ∀ header : Header, header.name ∉ Entries.keys (index.resolve chain).properties) :
    m.HeaderFree :=
  fun header hdeclared => hfree header (h.mem_declared_iff.1 hdeclared)

/-- The type chain stays as it is written. -/
theorem Filled.typeName_eq (h : index.Filled entries (index.instantiateAs chain) m) :
    m.typeName = chain := by
  have hkept := h.kept Header.typeName.name (.inl rfl)
  rw [Node.get?_of_header (Header.ofName?_name _),
    Node.get?_of_header (Header.ofName?_name _)] at hkept
  exact Value.string.inj (Option.some.inj hkept)

/-- Without an entry, a header field other than the type chain is null. -/
theorem Filled.header_of_none (h : index.Filled entries (index.instantiateAs chain) m)
    {header : Header} (hne : header ≠ .typeName) (hnone : Entries.get? header.name entries = none) :
    m.header header = .null := by
  have hkept := h.kept header.name (.inr hnone)
  rw [Node.get?_of_header (Header.ofName?_name _), Node.get?_of_header (Header.ofName?_name _),
    header_instantiateAs hne] at hkept
  exact Option.some.inj hkept

/-- With an entry, such a header field holds the value that the entry is read as. -/
theorem Filled.header_of_some (h : index.Filled entries (index.instantiateAs chain) m)
    {header : Header} (hne : header ≠ .typeName) {d : Document}
    (hsome : Entries.get? header.name entries = some d) :
    index.Materializes d (m.header header) := by
  have hname : header.name ≠ Header.typeName.name := by
    cases header with
    | typeName => exact absurd rfl hne
    | id => decide
    | applicationId => decide
  obtain ⟨v, hv, hget⟩ := h.written header.name d hname hsome
  rw [Node.get?_of_header (Header.ofName?_name _)] at hget
  rwa [Option.some.inj hget]

/-- A member without an entry is null if the type declares it, and is not there otherwise. -/
theorem Filled.get?_of_none (h : index.Filled entries (index.instantiateAs chain) m)
    (hplain : Header.ofName? name = none) (hnone : Entries.get? name entries = none) :
    m.get? name =
      if name ∈ Entries.keys (index.resolve chain).properties then some .null else none := by
  rw [h.kept name (.inr hnone), get?_instantiateAs_of_plain hplain]

theorem Filled.get?_of_some (h : index.Filled entries (index.instantiateAs chain) m)
    (hplain : Header.ofName? name = none) {d : Document}
    (hsome : Entries.get? name entries = some d) :
    ∃ v, index.Materializes d v ∧ m.get? name = some v :=
  h.written name d (Node.ne_header_of_plain hplain .typeName).symm hsome

end Materialized

end Index

/-! ## A kit with one type -/

/-- A type with two members. -/
def Module.columnKit : List Module :=
  [{ name := "Kit"
     types := [{
       handle := ⟨17, "Column"⟩
       typeName := some "Kit.Column"
       parent := some TypeHandle.root
       members := [Accessor.ofName "height", Accessor.ofName "@parts"] }] }]

/-- What the index holds about columns. -/
def Descriptor.sampleColumn : Descriptor where
  canonicalName := "Kit.Column"
  handle := ⟨17, "Column"⟩
  ancestry := ["Kit.Column"]
  deprecatedNames := []
  properties := [("height", ⟨"height", false⟩), ("@parts", ⟨"@parts", true⟩)]

/-- The index of the kit of columns. -/
def Index.columnIndex : Index where
  descriptors := [Descriptor.sampleRoot, Descriptor.sampleColumn]
  names := [("Base", Descriptor.sampleRoot), ("Kit.Column", Descriptor.sampleColumn)]
  fallback := Descriptor.sampleRoot
  modules := ["Kit"]

namespace Index

theorem build_columnKit : build Module.columnKit = .ok columnIndex := by decide +kernel

theorem headerFree_columnIndex : columnIndex.HeaderFree := by
  intro d hd header
  rcases List.mem_pair.1 hd with rfl | rfl
  · exact List.not_mem_nil
  · cases header <;> decide

end Index

end ObjectGraph
