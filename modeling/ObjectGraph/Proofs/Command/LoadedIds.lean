import ObjectGraph.Command.Program
import ObjectGraph.Proofs.Identity.Finite
import ObjectGraph.Proofs.Materialize.Suitable

/-!
# Ids of loaded nodes

The numbers of a document are finite, and so are those of the values that it is read as
(`Index.finite_of_materializeAt`), in transient members as well. So the command for ids, which looks
at the content of the root only before it writes the first line, has an id for every line
(`Index.loaded_ids`).
-/

namespace ObjectGraph

/-- The nearest double of a large integer is finite. -/
theorem Value.finite_ofInteger {n : Int} (upper : n < 2 * integerBound) : (ofInteger n).Finite := by
  rw [ofInteger]
  split
  next => exact .int _
  next hlarge => exact .float (Binary64.isNearest_ofInt (Int.not_lt.1 hlarge) upper).finite

/-- A node stays finite if the value that is written is. -/
theorem Node.Finite.set {n m : Node} {name : String} {value : Value} {previous : Option Value}
    (h : n.Finite) (hvalue : value.Finite) (hset : n.set name value = .ok (previous, m)) :
    m.Finite := by
  intro member hmember
  rcases mem_members_of_set hset hmember with rfl | hstart
  · exact hvalue
  · exact h member hstart

namespace Index

variable {index : Index}

theorem finite_instantiateAs (index : Index) (chain : String) :
    (index.instantiateAs chain).Finite := by
  intro member hmember
  rw [null_of_mem_instantiateAs hmember]
  exact .null

mutual

-- The recursion is that of `materializeAt` and its loops; for `fill` the node at hand is the
-- invariant.

/-- What is read from a document has finite numbers only. -/
theorem finite_of_materializeAt : ∀ {d : Document} {place : List Nat} {v : Value},
    index.materializeAt place d = .ok v → v.Finite
  | .null, _, _, h => by
      cases h
      exact .null
  | .bool b, _, _, h => by
      cases h
      exact .bool b
  | .integer n _ upper, _, _, h => by
      cases h
      exact Value.finite_ofInteger upper
  | .float x finite, _, _, h => by
      cases h
      exact .float finite
  | .string s, _, _, h => by
      cases h
      exact .string s
  | .array items, _, _, h => by
      cases becomes_of_materializeAt h with
      | array hvalues => exact .list (finite_of_materializeItems hvalues)
  | .object entries, _, _, h => by
      cases becomes_of_materializeAt h with
      | map _ hvalues => exact .map (finite_of_materializeEntries hvalues)
      | node _ hfill => exact .node (finite_of_fill hfill (finite_instantiateAs index _))

/-- The elements of a list are finite. -/
theorem finite_of_materializeItems :
    ∀ {items : List Document} {place : List Nat} {i : Nat} {values : List Value},
      index.materializeItems place i items = .ok values → ∀ v ∈ values, v.Finite
  | [], _, _, _, h => by
      cases h
      exact List.forall_mem_nil _
  | item :: rest, _, _, _, h => by
      obtain ⟨v, others, hv, hothers, rfl⟩ := materializeItems_cons_eq_ok h
      exact List.forall_mem_cons.2 ⟨finite_of_materializeAt hv, finite_of_materializeItems hothers⟩

/-- The values of a map are finite. -/
theorem finite_of_materializeEntries :
    ∀ {entries : List (String × Document)} {place : List Nat} {i : Nat}
      {values : List (String × Value)}, index.materializeEntries place i entries = .ok values →
        ∀ entry ∈ values, entry.2.Finite
  | [], _, _, _, h => by
      cases h
      exact List.forall_mem_nil _
  | (key, d) :: rest, _, _, _, h => by
      obtain ⟨v, others, hv, hothers, rfl⟩ := materializeEntries_cons_eq_ok h
      exact List.forall_mem_cons.2 ⟨finite_of_materializeAt hv,
        finite_of_materializeEntries hothers⟩

/-- Filling a finite node leaves it finite, since every value that is written is finite. -/
theorem finite_of_fill :
    ∀ {entries : List (String × Document)} {place : List Nat} {i : Nat} {n m : Node},
      index.fill place i entries n = .ok m → n.Finite → m.Finite
  | [], _, _, _, _, h, hn => by
      cases h
      exact hn
  | (key, d) :: rest, _, _, _, _, h, hn => by
      by_cases hkey : key = Header.typeName.name
      · -- The type chain is no member.
        rw [fill, if_pos hkey] at h
        exact finite_of_fill h hn
      · obtain ⟨v, previous, written, hv, hset, h⟩ := fill_cons_eq_ok hkey h
        exact finite_of_fill h (hn.set (finite_of_materializeAt hv) hset)

end

theorem finite_of_materializeObject {entries : List (String × Document)} {root : Vertex}
    (h : index.materializeObject entries = .ok root) : root.node.Finite := by
  obtain ⟨m, hfill, rfl⟩ := materializeObject_eq_ok h
  exact finite_of_fill hfill (finite_instantiateAs index _)

/-- The root of a file is finite. -/
theorem finite_of_loadRoot {path : String} {content : FileContent} {root : Vertex}
    (h : loadRoot index path content = .ok root) : root.node.Finite := by
  obtain ⟨d, -, h⟩ := bind_eq_ok_iff.1 h
  cases hentries : d.asObject? with
  | none =>
      rw [hentries] at h
      cases h
  | some entries =>
      rw [hentries] at h
      exact finite_of_materializeObject (mapError_eq_ok_iff.1 h)

end Index

/-! ## The command for ids -/

/-- A line of the command: the id of a node, and its type. -/
def IsIdLine (v : Vertex) (line : String) : Prop :=
  ∃ id, v.node.computeId = .ok id ∧ line = Text.joined '\t' [id, v.node.typeName]

/-- Where every node has an id, every node has its line. -/
theorem idLines_of_ids {vs : List Vertex} (h : ∀ v ∈ vs, ∃ id, v.node.computeId = .ok id) :
    ∃ lines, idLines vs = (lines, none) ∧ List.Forall₂ IsIdLine vs lines := by
  induction vs with
  | nil => exact ⟨[], rfl, .nil⟩
  | cons v rest ih =>
      obtain ⟨⟨id, hid⟩, hrest⟩ := List.forall_mem_cons.1 h
      obtain ⟨lines, hlines, hall⟩ := ih hrest
      refine ⟨Text.joined '\t' [id, v.node.typeName] :: lines, ?_, .cons ⟨id, hid, rfl⟩ hall⟩
      rw [idLines, hid]
      dsimp only
      rw [hlines]

/-- The report on a root of finite numbers is complete. -/
theorem Node.Finite.idReport_eq {root : Vertex} (h : root.node.Finite) (all verify : Bool) :
    ∃ id lines, root.node.computeId = .ok id ∧
      idReport root all verify = ⟨lines, .ok (verifyCode root.node id verify)⟩ ∧
      if all then List.Forall₂ IsIdLine (flatten root) lines else lines = [id] := by
  obtain ⟨id, hid⟩ := h.exists_computeId
  cases all with
  | false =>
      refine ⟨id, [id], hid, ?_, rfl⟩
      rw [idReport, hid]
      rfl
  | true =>
      obtain ⟨lines, hlines, hall⟩ := idLines_of_ids h.exists_computeId_flatten
      refine ⟨id, lines, hid, ?_, hall⟩
      rw [idReport, hid]
      dsimp only
      rw [if_pos rfl, hlines]

namespace Program

variable {index : Index} {look : String → Id FileContent} {path : String}

theorem withRoot_of_ok {root : Vertex} (h : loadRoot index path (look path) = .ok root)
    (report : Vertex → Report) : withRoot (m := Id) index look path report = report root := by
  simp only [withRoot, bind, pure]
  rw [h]

theorem withRoot_of_error {cause : LoadError} (h : loadRoot index path (look path) = .error cause)
    (report : Vertex → Report) :
    withRoot (m := Id) index look path report = .stopped (.load cause) := by
  simp only [withRoot, bind, pure]
  rw [h]

end Program

/-- A node that was read from a document has an id, and so has every node that is listed under it,
below transient members as well. So the command for ids is stopped only where a file has no root
node; otherwise it writes its line for every listed node, or the id of the root. -/
theorem Index.loaded_ids (index : Index) :
    (∀ entries root, index.materializeObject entries = .ok root →
      (∃ id, root.node.computeId = .ok id) ∧ ∀ v ∈ flatten root, ∃ id, v.node.computeId = .ok id) ∧
    (∀ d handle n, index.materialize d = .ok (.node handle n) →
      (∃ id, n.computeId = .ok id) ∧ ∀ v ∈ flatten ⟨handle, n⟩, ∃ id, v.node.computeId = .ok id) ∧
    ∀ (look : String → Id FileContent) file all verify,
      let report := Program.carryOut (m := Id) index look (.id file all verify)
      (∃ cause, loadRoot index file (look file) = .error cause ∧ report = .stopped (.load cause)) ∨
        ∃ root id lines, loadRoot index file (look file) = .ok root ∧ root.node.computeId = .ok id ∧
          report = ⟨lines, .ok (verifyCode root.node id verify)⟩ ∧
          if all then List.Forall₂ IsIdLine (flatten root) lines else lines = [id] := by
  refine ⟨?_, ?_, ?_⟩
  · intro entries root h
    have hroot := finite_of_materializeObject h
    exact ⟨hroot.exists_computeId, hroot.exists_computeId_flatten⟩
  · intro d handle n h
    have hn := Value.finite_node_iff.1 (finite_of_materializeAt h)
    exact ⟨hn.exists_computeId, Node.Finite.exists_computeId_flatten hn⟩
  · intro look file all verify report
    cases hload : loadRoot index file (look file) with
    | error cause => exact .inl ⟨cause, rfl, Program.withRoot_of_error hload _⟩
    | ok root =>
        obtain ⟨id, lines, hid, heq, hlines⟩ := (finite_of_loadRoot hload).idReport_eq all verify
        exact .inr ⟨root, id, lines, rfl, hid, (Program.withRoot_of_ok hload _).trans heq, hlines⟩

/-- A column with a sketch under a transient member; the scale of the sketch has no signed 64-bit
number. -/
def Document.sketchedEntries : List (String × Document) :=
  [("__sketch", .object [("scale", .integer 0x8000000000000405 (by decide) (by decide)),
      ("speckle_type", .string "Kit.Sketch")]),
    ("speckle_type", .string "Kit.Column")]

/-- The sketch: its scale has become the nearest double. -/
def Node.sampleSketch : Node :=
  { new "Kit.Sketch" with dynamic := [("scale", Value.ofInteger 0x8000000000000405)] }

/-- The column that is read from those entries. -/
def Node.sketchedColumn : Node :=
  { new "Kit.Column" with
    declared := [("height", .null), ("@parts", .null)]
    dynamic := [("__sketch", .node ⟨[0]⟩ sampleSketch)] }

theorem Index.materializeObject_sketchedEntries :
    columnIndex.materializeObject Document.sketchedEntries = .ok ⟨⟨[]⟩, Node.sketchedColumn⟩ := by
  rfl

/-- The sketch does not belong to the content of the column. It is listed, and it has an id. -/
theorem Index.loaded_ids_sketchedColumn :
    build Module.columnKit = .ok columnIndex ∧
    columnIndex.materializeObject Document.sketchedEntries = .ok ⟨⟨[]⟩, Node.sketchedColumn⟩ ∧
    Name.isHashed "__sketch" = false ∧
    ∃ v ∈ flatten ⟨⟨[]⟩, Node.sketchedColumn⟩, v.handle = ⟨[0]⟩ ∧
      ∃ id, v.node.computeId = .ok id := by
  obtain ⟨hobject, -, -⟩ := loaded_ids columnIndex
  obtain ⟨-, hlisted⟩ := hobject _ _ materializeObject_sketchedEntries
  -- The walk goes into the transient member.
  have hpath : (Context.root ⟨⟨[]⟩, Node.sketchedColumn⟩).PathTo Node.AnyMember [⟨"__sketch", 0⟩]
      (.child ⟨⟨[0]⟩, Node.sampleSketch⟩ "__sketch" (.root ⟨⟨[]⟩, Node.sketchedColumn⟩)) := by
    have hmember : Node.sketchedColumn.AnyMember "__sketch" := by
      rw [Node.AnyMember]
      decide
    exact Context.pathTo_cons_iff.2 ⟨hmember, _, rfl, .here _⟩
  obtain ⟨v, hv, hhandle⟩ := List.mem_map.1 (mem_handles_flatten_iff.2 ⟨_, _, hpath, rfl⟩)
  exact ⟨build_columnKit, materializeObject_sketchedEntries, by decide, v, hv, hhandle,
    hlisted v hv⟩

end ObjectGraph
