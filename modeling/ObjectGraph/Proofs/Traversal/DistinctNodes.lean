import ObjectGraph.Proofs.Traversal.Occurrences
import ObjectGraph.Traversal.Walk

/-!
# Listings without repeats

A walk comes to a shared node once for each path to it, and there can be far more paths than nodes.
`flatten` keeps the first occurrence of each handle: a vertex is kept exactly if no vertex before it
has its handle (`mem_distinctVertices_iff`), so every node that a path leads to is listed once, in
the order in which the walk first comes to it (`flatten_lists_each_once`). What stands in a node
does not count.
-/

namespace ObjectGraph

variable {seen : List Handle} {vs : List Vertex} {v : Vertex} {handle : Handle}

theorem distinctVertices_of_mem {rest : List Vertex} (h : v.handle ∈ seen) :
    distinctVertices seen (v :: rest) = distinctVertices seen rest := by
  rw [distinctVertices, if_pos (List.contains_iff_mem.2 h)]

theorem distinctVertices_of_not_mem {rest : List Vertex} (h : v.handle ∉ seen) :
    distinctVertices seen (v :: rest) = v :: distinctVertices (v.handle :: seen) rest := by
  rw [distinctVertices, if_neg (by rwa [List.contains_iff_mem])]

/-- Vertices with new and different handles are all kept. -/
theorem distinctVertices_eq_self (hseen : ∀ v ∈ vs, v.handle ∉ seen)
    (hvs : (vs.map Vertex.handle).Nodup) : distinctVertices seen vs = vs := by
  induction vs generalizing seen with
  | nil => rfl
  | cons v rest ih =>
      rw [List.map_cons, List.nodup_cons] at hvs
      obtain ⟨hv, hrest⟩ := List.forall_mem_cons.1 hseen
      rw [distinctVertices_of_not_mem hv, ih ?_ hvs.2]
      intro w hw hmem
      rcases List.mem_cons.1 hmem with heq | hmem
      · exact hvs.1 (heq ▸ List.mem_map_of_mem hw)
      · exact hrest w hw hmem

/-- A vertex is kept exactly if its handle is new and it is the first with this handle. -/
theorem mem_distinctVertices_iff :
    v ∈ distinctVertices seen vs ↔
      v.handle ∉ seen ∧ vs.find? (fun w => w.handle == v.handle) = some v := by
  -- In front stands a vertex that was seen, the first one with the handle of `v`, or one with
  -- another handle.
  induction vs generalizing seen with
  | nil => simp [distinctVertices]
  | cons w rest ih =>
      by_cases hw : w.handle ∈ seen
      · rw [distinctVertices_of_mem hw, ih, and_congr_right_iff]
        intro hnew
        have hne : w.handle ≠ v.handle := fun heq => hnew (heq ▸ hw)
        rw [List.find?_cons_of_neg (by simpa using hne)]
      · rw [distinctVertices_of_not_mem hw, List.mem_cons, ih, List.mem_cons, not_or]
        by_cases heq : w.handle = v.handle
        · rw [List.find?_cons_of_pos (by simpa using heq), Option.some_inj, ← heq]
          constructor
          · rintro (rfl | ⟨⟨hne, -⟩, -⟩)
            · exact ⟨hw, rfl⟩
            · exact absurd rfl hne
          · exact fun h => .inl h.2.symm
        · rw [List.find?_cons_of_neg (by simpa using heq)]
          constructor
          · rintro (rfl | ⟨⟨-, hnew⟩, hfind⟩)
            · exact absurd rfl heq
            · exact ⟨hnew, hfind⟩
          · exact fun h => .inr ⟨⟨Ne.symm heq, h.1⟩, h.2⟩

-- Two equal panes are both kept, and each of them once.
example :
    distinctVertices []
      [⟨⟨[0]⟩, .new "Kit.Pane"⟩, ⟨⟨[1]⟩, .new "Kit.Pane"⟩, ⟨⟨[0]⟩, .new "Kit.Pane"⟩] =
    [⟨⟨[0]⟩, .new "Kit.Pane"⟩, ⟨⟨[1]⟩, .new "Kit.Pane"⟩] := by rfl

/-- The handles that are kept are all new ones. -/
theorem mem_handles_distinctVertices_iff :
    handle ∈ (distinctVertices seen vs).map Vertex.handle ↔
      handle ∈ vs.map Vertex.handle ∧ handle ∉ seen := by
  simp only [List.mem_map, mem_distinctVertices_iff]
  constructor
  · rintro ⟨v, ⟨hnew, hfind⟩, rfl⟩
    exact ⟨⟨v, List.mem_of_find?_eq_some hfind, rfl⟩, hnew⟩
  · rintro ⟨⟨v, hv, rfl⟩, hnew⟩
    obtain ⟨w, hfind⟩ : ∃ w, vs.find? (fun w => w.handle == v.handle) = some w :=
      Option.isSome_iff_exists.1 (List.find?_isSome.2 ⟨v, hv, by simp⟩)
    have hhandle : w.handle = v.handle := by simpa using List.find?_some hfind
    exact ⟨w, ⟨hhandle ▸ hnew, hhandle ▸ hfind⟩, hhandle⟩

/-- No handle is listed twice. -/
theorem nodup_distinctVertices (seen : List Handle) (vs : List Vertex) :
    ((distinctVertices seen vs).map Vertex.handle).Nodup := by
  induction vs generalizing seen with
  | nil => exact List.nodup_nil
  | cons v rest ih =>
      by_cases hv : v.handle ∈ seen
      · rw [distinctVertices_of_mem hv]
        exact ih seen
      · rw [distinctVertices_of_not_mem hv, List.map_cons, List.nodup_cons,
          mem_handles_distinctVertices_iff]
        exact ⟨fun h => h.2 List.mem_cons_self, ih _⟩

/-- An element in front of a list moves the first occurrences of the others by one place. -/
theorem pairwise_idxOf_cons {first : Handle} {kept handles : List Handle} (hfirst : first ∉ kept)
    (h : kept.Pairwise fun a b => handles.idxOf a < handles.idxOf b) :
    kept.Pairwise fun a b => (first :: handles).idxOf a < (first :: handles).idxOf b := by
  refine h.imp_of_mem fun {a b} ha hb hlt => ?_
  rw [List.idxOf_cons_ne _ (ne_of_mem_of_not_mem ha hfirst).symm,
    List.idxOf_cons_ne _ (ne_of_mem_of_not_mem hb hfirst).symm]
  exact Nat.succ_lt_succ hlt

/-- The kept handles stand in the order of their first occurrences. -/
theorem pairwise_distinctVertices (seen : List Handle) (vs : List Vertex) :
    ((distinctVertices seen vs).map Vertex.handle).Pairwise fun a b =>
      (vs.map Vertex.handle).idxOf a < (vs.map Vertex.handle).idxOf b := by
  induction vs generalizing seen with
  | nil => exact .nil
  | cons v rest ih =>
      have hlater : ∀ known : List Handle, v.handle ∈ known →
          v.handle ∉ (distinctVertices known rest).map Vertex.handle :=
        fun known hknown h => (mem_handles_distinctVertices_iff.1 h).2 hknown
      by_cases hv : v.handle ∈ seen
      · rw [distinctVertices_of_mem hv]
        exact pairwise_idxOf_cons (hlater seen hv) (ih seen)
      · have hnew := hlater (v.handle :: seen) List.mem_cons_self
        rw [distinctVertices_of_not_mem hv, List.map_cons, List.map_cons, List.pairwise_cons]
        refine ⟨fun b hb => ?_, pairwise_idxOf_cons hnew (ih _)⟩
        rw [List.idxOf_cons_self, List.idxOf_cons_ne _ (ne_of_mem_of_not_mem hb hnew).symm]
        exact Nat.succ_pos _

/-- The walk through all members returns the contexts of all levels. -/
theorem toList_of_levels {root : Vertex} {levels : List (List Context)}
    (h : Levels [] [.root root] levels) : (Walk.start [] root).toList = levels.flatten := by
  have hshown : (Walk.start [] root).toList = levels.flatten.filter (Rule.shows []) :=
    Walk.shownFrom_levels h
  have hall : ∀ c ∈ levels.flatten, Rule.shows [] c = true := fun _ _ => rfl
  rw [hshown, List.filter_eq_self.2 hall]

/-- The handles of a listing are those at the end of the paths through members of any kind. -/
theorem mem_handles_flatten_iff {root : Vertex} : handle ∈ (flatten root).map Vertex.handle ↔
    ∃ path c, (Context.root root).PathTo Node.AnyMember path c ∧ c.vertex.handle = handle := by
  obtain ⟨listing, hlisting, hpaths, -⟩ := Walk.exists_listing [] root
  rw [flatten, mem_handles_distinctVertices_iff, hlisting, List.map_map, List.map_map, List.mem_map]
  constructor
  · rintro ⟨⟨⟨path, c⟩, hlisted, hhandle⟩, -⟩
    exact ⟨path, c, ((hpaths path c).1 hlisted).1, hhandle⟩
  · rintro ⟨path, c, hpath, hhandle⟩
    exact ⟨⟨(path, c), (hpaths path c).2 ⟨hpath, rfl⟩, hhandle⟩, List.not_mem_nil⟩

theorem head?_flatten (root : Vertex) : (flatten root).head? = some root := by
  have hfirst : (Walk.start [] root).toList =
      .root root :: Walk.shownFrom [] (Rule.expand [] (.root root)) :=
    Walk.shownFrom_cons [] (.root root) []
  rw [flatten, hfirst, List.map_cons, distinctVertices_of_not_mem List.not_mem_nil]
  rfl

/-- In the list of distinct nodes the root comes first. A handle is listed exactly if a path through
members of any kind leads to a node with it, and never twice, whatever stands in the nodes. A listed
vertex is the one at the first occurrence of its handle in the levels of the graph, one level after
the other, and the handles come in the order of these first occurrences. -/
theorem flatten_lists_each_once (root : Vertex) :
    ∃ levels, Levels [] [.root root] levels ∧
      (flatten root).head? = some root ∧
      (∀ handle, handle ∈ (flatten root).map Vertex.handle ↔
        ∃ path c, (Context.root root).PathTo Node.AnyMember path c ∧ c.vertex.handle = handle) ∧
      ((flatten root).map Vertex.handle).Nodup ∧
      (∀ v, v ∈ flatten root ↔
        (levels.flatten.map Context.vertex).find? (fun w => w.handle == v.handle) = some v) ∧
      ((flatten root).map Vertex.handle).Pairwise fun a b =>
        ((levels.flatten.map Context.vertex).map Vertex.handle).idxOf a <
          ((levels.flatten.map Context.vertex).map Vertex.handle).idxOf b := by
  obtain ⟨levels, hlevels⟩ := exists_levels [] [.root root]
  have hflatten : flatten root = distinctVertices [] (levels.flatten.map Context.vertex) := by
    rw [flatten, toList_of_levels hlevels]
  refine ⟨levels, hlevels, head?_flatten root, fun handle => mem_handles_flatten_iff, ?_, ?_, ?_⟩
  · rw [hflatten]
    exact nodup_distinctVertices [] _
  · intro v
    rw [hflatten, mem_distinctVertices_iff]
    exact and_iff_right List.not_mem_nil
  · rw [hflatten]
    exact pairwise_distinctVertices [] _

end ObjectGraph
