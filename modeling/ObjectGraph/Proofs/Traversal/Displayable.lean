import ObjectGraph.Proofs.Traversal.Occurrences
import ObjectGraph.Proofs.Traversal.StockRules

/-!
# Walks over what is displayed

The rules for displayable nodes open a member or leave it closed by the node alone, whatever led to
the node (`Node.OpenToDisplay`). So a walk under them returns the contexts at the paths through open
members, one for each path, and nothing else (`Walk.returns_displayable`); these are among the
contexts of the walk through all members.

What a displayed node looks like stands under members that the walk leaves closed.
`Node.displayValues` lists the nodes there, but only those at the top or directly in a list: it
agrees with the nodes that the two members open to exactly where no node stands deeper
(`Node.displayValues_eq_iff`).
-/

namespace ObjectGraph

/-! ## Paths through open members -/

namespace Node

/-- The name of the type says that the node is a result of an analysis. -/
def IsAnalysisResult (n : Node) : Prop :=
  "Objects.Structural.Results".toList <:+: n.typeName.toList

/-- Something other than null is there to display. -/
def IsDisplayed (n : Node) : Prop :=
  ∃ v, v ≠ .null ∧ (n.get? "displayValue" = some v ∨ n.get? "@displayValue" = some v)

/-- The members that are gone into for display: none of a result of an analysis, the hosted elements
of a displayed node, and every member of another one. -/
def OpenToDisplay (n : Node) (name : String) : Prop :=
  n.AnyMember name ∧ ¬ n.IsAnalysisResult ∧ (n.IsDisplayed → name = "elements" ∨ name = "@elements")

theorem isStructuralResult_iff {n : Node} : n.isStructuralResult = true ↔ n.IsAnalysisResult :=
  Text.contains_iff

/-- The test for a display value, by what the members hold. -/
theorem hasDisplayValue_iff {n : Node} : n.hasDisplayValue = true ↔ n.IsDisplayed := by
  have hnamed : ∀ name, ((n.get? name).map fun v => !v.isNull).getD false = true ↔
      ∃ v, v ≠ .null ∧ n.get? name = some v := by
    intro name
    cases hget : n.get? name with
    | none => simp
    | some v => cases v <;> simp [Value.isNull]
  simp only [hasDisplayValue, displayNames, List.any_cons, List.any_nil, Bool.or_false,
    Bool.or_eq_true, hnamed, IsDisplayed, and_or_left, exists_or]

end Node

namespace Rule

/-- The rules for displayable nodes look for a result of an analysis first, and then for something
to display. -/
theorem active_displayable_cases (n : Node) :
    n.IsAnalysisResult ∧ active displayable n = ignoreResults ∨
      ¬ n.IsAnalysisResult ∧ n.IsDisplayed ∧
        active displayable n = (when Node.hasDisplayValue).descendInto Node.elementNames ∨
      ¬ n.IsAnalysisResult ∧ ¬ n.IsDisplayed ∧ active displayable n = .default := by
  rw [← Node.isStructuralResult_iff, ← Node.hasDisplayValue_iff]
  cases hresult : n.isStructuralResult <;> cases hdisplayed : n.hasDisplayValue <;>
    simp [active, displayable, ignoreResults, when, descendNone, descendInto, descend,
      applies, hresult, hdisplayed]

/-- Where a node is found, the rules for displayable nodes select the members that are open to
display. -/
theorem selects_displayable_iff {n : Node} {name : String} {v : Vertex} (hv : v ∈ n.under name) :
    Selects displayable n name ↔ n.OpenToDisplay name := by
  have hmember := Node.anyMember_of_mem_under hv
  rw [Selects, Node.OpenToDisplay]
  rcases active_displayable_cases n with ⟨hresult, hactive⟩ | ⟨hresult, hdisplayed, hactive⟩ |
    ⟨hresult, hdisplayed, hactive⟩
  · rw [hactive]
    exact iff_of_false List.not_mem_nil fun hopen => hopen.2.1 hresult
  · rw [hactive]
    simp [descendInto, descend, Node.elementNames, hmember, hresult, hdisplayed]
  · rw [hactive]
    exact iff_of_true hmember ⟨hmember, hresult, fun h => absurd h hdisplayed⟩

theorem shows_displayable (c : Context) : shows displayable c = true := by
  rcases active_displayable_cases c.node with ⟨-, hactive⟩ | ⟨-, -, hactive⟩ | ⟨-, -, hactive⟩ <;>
    rw [shows, hactive] <;> rfl

/-- The rules for displayable nodes select no member twice, if the names of a node are distinct. -/
theorem nodup_members_displayable {n : Node} (h : (n.memberNames .all).Nodup) :
    ((active displayable n).members n).Nodup := by
  rcases active_displayable_cases n with ⟨-, hactive⟩ | ⟨-, -, hactive⟩ | ⟨-, -, hactive⟩ <;>
    rw [hactive]
  · exact List.nodup_nil
  · exact (by decide : Node.elementNames.Nodup)
  · exact h

end Rule

/-- In a graph of nodes as the operations make them, the rules for displayable nodes return one
context for each path on which every step goes through a member that is open to display, and nothing
else. These contexts are among those of the walk through all members, each as often as it occurs
there at most. -/
theorem Walk.returns_displayable (root : Vertex)
    (hgraph : ∀ path c, (Context.root root).PathTo Node.AnyMember path c → c.node.Reachable) :
    ∃ (listing : List (List Occurrence × Context)) (all : List Context),
      (start Rule.displayable root).Returns (listing.map Prod.snd) ∧
      (listing.map Prod.fst).Nodup ∧
      (∀ path c, (path, c) ∈ listing ↔ (Context.root root).PathTo Node.OpenToDisplay path c) ∧
      (start [] root).Returns all ∧
      (listing.map Prod.snd).Subperm all := by
  have hnames : ∀ path c, (Context.root root).PathTo Node.AnyMember path c →
      (c.node.memberNames .all).Nodup :=
    fun path c hpath => (hgraph path c hpath).wellFormed.nodup_memberNames
  have hopen : ∀ path c, (Context.root root).PathTo (Rule.Selects Rule.displayable) path c ↔
      (Context.root root).PathTo Node.OpenToDisplay path c := by
    intro path c
    constructor
    · exact fun h => h.mono fun n name v hv => (Rule.selects_displayable_iff hv).1
    · exact fun h => h.mono fun n name v hv => (Rule.selects_displayable_iff hv).2
  have hany : ∀ path c, (Context.root root).PathTo Node.OpenToDisplay path c →
      (Context.root root).PathTo Node.AnyMember path c :=
    fun path c h => h.mono fun n name v _ hname => hname.1
  obtain ⟨listing, hlisting, hmem, hnodup⟩ := exists_listing Rule.displayable root
  obtain ⟨allListing, hall, hmemAll, -⟩ := exists_listing [] root
  have hdistinct : (listing.map Prod.fst).Nodup := by
    apply hnodup
    intro path c hpath
    exact Rule.nodup_members_displayable (hnames path c (hany path c ((hopen path c).1 hpath)))
  have hpaths : ∀ path c, (path, c) ∈ listing ↔
      (Context.root root).PathTo Node.OpenToDisplay path c := by
    intro path c
    rw [hmem, hopen, Rule.shows_displayable]
    exact and_iff_left rfl
  have hsubset : listing ⊆ allListing := by
    rintro ⟨path, c⟩ hlisted
    exact (hmemAll path c).2 ⟨hany path c ((hpaths path c).1 hlisted), rfl⟩
  -- A subset without repeats is a part of the other listing, whatever the order; this is for pairs
  -- with the path, since equal contexts may stand at several paths.
  obtain ⟨between, hperm, hsub⟩ := List.subperm_of_subset hdistinct.of_map hsubset
  refine ⟨listing, allListing.map Prod.snd, returns_iff.2 hlisting.symm, hdistinct, hpaths,
    returns_iff.2 hall.symm, ?_⟩
  exact ⟨between.map Prod.snd, hperm.map Prod.snd, hsub.map Prod.snd⟩

namespace Node

/-- A pane with a film on it. -/
def samplePane : Node :=
  { new "Kit.Pane" with dynamic := [("coating", .node ⟨[0, 1]⟩ (new "Kit.Film"))] }

/-- A facade with one pane in two places, displayed by a mesh in a map. -/
def sampleFacade : Node :=
  { new "Kit.Facade" with
    dynamic := [("displayValue", .map [("outer", .node ⟨[2]⟩ (new "Kit.Mesh"))]),
      ("elements", .list [.node ⟨[1]⟩ samplePane, .node ⟨[1]⟩ samplePane])] }

/-- Every node of the facade is reachable. -/
theorem reachable_sampleFacade {path : List Occurrence} {c : Context}
    (h : (Context.root ⟨⟨[]⟩, sampleFacade⟩).PathTo AnyMember path c) : c.node.Reachable := by
  have hpane : samplePane.Reachable := by
    have hset : (new "Kit.Pane").set "coating" (.node ⟨[0, 1]⟩ (new "Kit.Film")) =
        .ok (none, samplePane) := rfl
    exact (Reachable.new "Kit.Pane").set hset
  have hfacade : sampleFacade.Reachable := by
    have hmesh : (new "Kit.Facade").set "displayValue"
          (.map [("outer", .node ⟨[2]⟩ (new "Kit.Mesh"))]) =
        .ok (none, { sampleFacade with dynamic := sampleFacade.dynamic.take 1 }) := rfl
    have hpanes :
        ({ sampleFacade with dynamic := sampleFacade.dynamic.take 1 } : Node).set "elements"
          (.list [.node ⟨[1]⟩ samplePane, .node ⟨[1]⟩ samplePane]) =
        .ok (none, sampleFacade) := rfl
    exact ((Reachable.new "Kit.Facade").set hmesh).set hpanes
  -- All nodes of the graph, and what is found under their members.
  have hnode : c.node ∈ [sampleFacade, samplePane, new "Kit.Film", new "Kit.Mesh"] := by
    refine h.holds (P := fun n => n ∈ [sampleFacade, samplePane, new "Kit.Film", new "Kit.Mesh"])
      List.mem_cons_self ?_
    intro n name v hn hv
    have hname := anyMember_of_mem_under hv
    simp only [List.mem_cons, List.not_mem_nil, or_false] at hn
    rcases hn with rfl | rfl | rfl | rfl
    · rcases List.mem_pair.1 hname with rfl | rfl
      · have hmesh : sampleFacade.under "displayValue" = [⟨⟨[2]⟩, new "Kit.Mesh"⟩] := by rfl
        rw [hmesh, List.mem_singleton] at hv
        simp [hv]
      · have hpanes : sampleFacade.under "elements" =
            [⟨⟨[1]⟩, samplePane⟩, ⟨⟨[1]⟩, samplePane⟩] := by rfl
        rw [hpanes, List.mem_pair, or_self] at hv
        simp [hv]
    · have hfilm : samplePane.under "coating" = [⟨⟨[0, 1]⟩, new "Kit.Film"⟩] := by rfl
      rw [List.mem_singleton.1 hname, hfilm, List.mem_singleton] at hv
      simp [hv]
    · cases hname
    · cases hname
  simp only [List.mem_cons, List.not_mem_nil, or_false] at hnode
  rcases hnode with hn | hn | hn | hn <;> rw [hn]
  · exact hfacade
  · exact hpane
  · exact .new "Kit.Film"
  · exact .new "Kit.Mesh"

end Node

/-- The film is returned once for each place of the pane, and the mesh is not returned. -/
theorem Walk.returns_displayable_sampleFacade :
    (∀ path c, (Context.root ⟨⟨[]⟩, Node.sampleFacade⟩).PathTo Node.AnyMember path c →
      c.node.Reachable) ∧
      ∃ (listing : List (List Occurrence × Context)) (all : List Context),
        (start Rule.displayable ⟨⟨[]⟩, Node.sampleFacade⟩).Returns (listing.map Prod.snd) ∧
        (listing.map Prod.fst).Nodup ∧
        (∃ c d, ([⟨"elements", 0⟩, ⟨"coating", 0⟩], c) ∈ listing ∧
          ([⟨"elements", 1⟩, ⟨"coating", 0⟩], d) ∈ listing ∧ c.vertex = d.vertex) ∧
        (∀ path c, (⟨"displayValue", 0⟩ :: path, c) ∉ listing) ∧
        (start [] ⟨⟨[]⟩, Node.sampleFacade⟩).Returns all ∧
        (listing.map Prod.snd).Subperm all := by
  have hgraph : ∀ path c, (Context.root ⟨⟨[]⟩, Node.sampleFacade⟩).PathTo Node.AnyMember path c →
      c.node.Reachable := fun _ _ hpath => Node.reachable_sampleFacade hpath
  obtain ⟨listing, all, hreturns, hnodup, hpaths, hall, hsubperm⟩ := returns_displayable _ hgraph
  refine ⟨hgraph, listing, all, hreturns, hnodup, ?_, ?_, hall, hsubperm⟩
  · -- The facade is displayed and has its panes under its elements; the pane is not displayed, so
    -- its film is on the way as well.
    have hpanes : Node.sampleFacade.under "elements" =
        [⟨⟨[1]⟩, Node.samplePane⟩, ⟨⟨[1]⟩, Node.samplePane⟩] := by rfl
    have hfilms : Node.samplePane.under "coating" = [⟨⟨[0, 1]⟩, .new "Kit.Film"⟩] := by rfl
    have hpane : Node.sampleFacade.OpenToDisplay "elements" := by
      have hselects : Rule.Selects Rule.displayable Node.sampleFacade "elements" :=
        List.mem_cons_self
      exact (Rule.selects_displayable_iff (hpanes ▸ List.mem_cons_self)).1 hselects
    have hfilm : Node.samplePane.OpenToDisplay "coating" := by
      have hselects : Rule.Selects Rule.displayable Node.samplePane "coating" := List.mem_cons_self
      exact (Rule.selects_displayable_iff (hfilms ▸ List.mem_cons_self)).1 hselects
    have hfound : ∀ i, (Node.sampleFacade.under "elements")[i]? = some ⟨⟨[1]⟩, Node.samplePane⟩ →
        ∃ c, ([⟨"elements", i⟩, ⟨"coating", 0⟩], c) ∈ listing ∧
          c.vertex = ⟨⟨[0, 1]⟩, .new "Kit.Film"⟩ := by
      intro i hi
      refine ⟨.child ⟨⟨[0, 1]⟩, .new "Kit.Film"⟩ "coating"
        (.child ⟨⟨[1]⟩, Node.samplePane⟩ "elements" (.root ⟨⟨[]⟩, Node.sampleFacade⟩)),
        (hpaths _ _).2 ?_, rfl⟩
      refine Context.pathTo_cons_iff.2 ⟨hpane, _, hi,
        Context.pathTo_cons_iff.2 ⟨hfilm, _, ?_, .here _⟩⟩
      exact congrArg (fun found => found[0]?) hfilms
    obtain ⟨c, hc, hvertex⟩ := hfound 0 (by rw [hpanes]; rfl)
    obtain ⟨d, hd, hvertex'⟩ := hfound 1 (by rw [hpanes]; rfl)
    exact ⟨c, d, hc, hd, hvertex.trans hvertex'.symm⟩
  · intro path c hlisted
    obtain ⟨hopen, -⟩ := Context.pathTo_cons_iff.1 ((hpaths _ c).1 hlisted)
    have hdisplayed : Node.sampleFacade.IsDisplayed := Node.hasDisplayValue_iff.1 rfl
    exact absurd (hopen.2.2 hdisplayed) (by decide)

/-! ## Nodes under the display names -/

/-- Parts of two lists make up both lists only if each is the whole of its own. -/
theorem append_eq_append_iff_of_sublist {α : Type} {xs ys xs' ys' : List α} (h : xs.Sublist xs')
    (h' : ys.Sublist ys') : xs ++ ys = xs' ++ ys' ↔ xs = xs' ∧ ys = ys' := by
  constructor
  · intro heq
    have hlength := congrArg List.length heq
    rw [List.length_append, List.length_append] at hlength
    have hle := h.length_le
    have hle' := h'.length_le
    exact ⟨h.eq_of_length (by omega), h'.eq_of_length (by omega)⟩
  · rintro ⟨rfl, rfl⟩
    rfl

namespace Value

/-- The nodes of a value stand at the top or directly in its list: a map has no nodes in it, and
neither has an element of a list that is not a node itself. -/
def NodesAtTop : Value → Prop
  | .list items => ∀ item ∈ items, item.asVertex? = none → item.Opens []
  | .map entries => (Value.map entries).Opens []
  | _ => True

theorem opens_nil_iff {v : Value} : v.Opens [] ↔ v.vertices = [] := by
  constructor
  · exact fun h => h.eq_vertices.symm
  · intro h
    have hopens := v.opens_vertices
    rwa [h] at hopens

theorem asVertex?_sublist (v : Value) : v.asVertex?.toList.Sublist v.vertices := by
  cases v with
  | node handle content => exact List.Sublist.refl _
  | null | bool | int | float | string | list | map => exact List.nil_sublist _

/-- A value opens to the node that it is, or to nothing, exactly when it hides none. -/
theorem asVertex?_eq_iff {v : Value} :
    v.asVertex?.toList = v.vertices ↔ (v.asVertex? = none → v.Opens []) := by
  rw [opens_nil_iff]
  cases v with
  | node handle content => simp [asVertex?, vertices]
  | null | bool | int | float | string | list | map =>
      exact ⟨fun h _ => h.symm, fun h => (h rfl).symm⟩

end Value

namespace Node

/-- The nodes among the elements of a list are some of those in it, and all of them if none stands
deeper. -/
theorem filterMap_asVertex? (items : List Value) :
    (items.filterMap Value.asVertex?).Sublist (listVertices items) ∧
      (items.filterMap Value.asVertex? = listVertices items ↔ (Value.list items).NodesAtTop) := by
  induction items with
  | nil => exact ⟨.slnil, by simp [listVertices, Value.NodesAtTop]⟩
  | cons item rest ih =>
      obtain ⟨hsublist, heq⟩ := ih
      have hcons : (item :: rest).filterMap Value.asVertex? =
          item.asVertex?.toList ++ rest.filterMap Value.asVertex? := by
        cases item <;> rfl
      rw [hcons, listVertices]
      refine ⟨item.asVertex?_sublist.append hsublist, ?_⟩
      rw [append_eq_append_iff_of_sublist item.asVertex?_sublist hsublist, heq,
        Value.asVertex?_eq_iff, Value.NodesAtTop, Value.NodesAtTop, List.forall_mem_cons]

theorem displayVertices_sublist (v : Value) : (displayVertices v).Sublist v.vertices := by
  cases v with
  | node handle content => exact List.Sublist.refl _
  | list items => exact (filterMap_asVertex? items).1
  | null | bool | int | float | string | map => exact List.nil_sublist _

/-- A display value names all it opens to exactly when its nodes stand at the top. -/
theorem displayVertices_eq_iff {v : Value} : displayVertices v = v.vertices ↔ v.NodesAtTop := by
  cases v with
  | node handle content => simp [displayVertices, Value.vertices, Value.NodesAtTop]
  | list items => exact (filterMap_asVertex? items).2
  | map entries =>
      rw [Value.NodesAtTop, Value.opens_nil_iff]
      exact eq_comm
  | null | bool | int | float | string => simp [displayVertices, Value.vertices, Value.NodesAtTop]

/-- What is displayed under one of the names. -/
def displayedUnder (n : Node) (name : String) : List Vertex :=
  ((n.get? name).map displayVertices).getD []

variable {n : Node} {name : String}

/-- What one member displays is among what stands under it. -/
theorem displayedUnder_sublist (n : Node) (name : String) :
    (n.displayedUnder name).Sublist (n.under name) := by
  rw [displayedUnder]
  cases hget : n.get? name with
  | none => exact List.nil_sublist _
  | some v =>
      rw [under_of_some hget]
      exact displayVertices_sublist v

/-- A member displays all that stands under it exactly when its nodes stand at the top. -/
theorem displayedUnder_eq_iff :
    n.displayedUnder name = n.under name ↔ ∀ v, n.get? name = some v → v.NodesAtTop := by
  rw [displayedUnder]
  cases hget : n.get? name with
  | none => simp [under_of_none hget]
  | some v =>
      rw [under_of_some hget]
      simp [displayVertices_eq_iff]

theorem displayValues_eq (n : Node) :
    n.displayValues = n.displayedUnder "displayValue" ++ n.displayedUnder "@displayValue" := by
  simp [displayValues, displayNames, displayedUnder]

/-- A node that is found under one of the display names is something to display. -/
theorem isDisplayed_of_mem_under {v : Vertex} (hname : name ∈ displayNames)
    (hv : v ∈ n.under name) : n.IsDisplayed := by
  obtain ⟨value, found, hget, hopens, hfound⟩ := mem_under_iff.1 hv
  refine ⟨value, ?_, ?_⟩
  · rintro rfl
    rw [hopens.eq_vertices, Value.vertices] at hfound
    cases hfound
  · rcases List.mem_pair.1 hname with rfl | rfl
    · exact .inl hget
    · exact .inr hget

/-- No step under the rules for displayable nodes goes through a member that holds what is
displayed. -/
theorem not_mem_displayNames_of_step {step : String × Vertex}
    (h : step ∈ Rule.steps Rule.displayable n) : step.1 ∉ displayNames := by
  obtain ⟨name, hselects, v, hv, rfl⟩ : ∃ name, Rule.Selects Rule.displayable n name ∧
      ∃ v, v ∈ n.under name ∧ (name, v) = step := by
    simpa [Rule.steps, Rule.Selects] using h
  intro hname
  obtain ⟨-, -, hhosted⟩ := (Rule.selects_displayable_iff hv).1 hselects
  have hplain : name ∉ elementNames := by
    rcases List.mem_pair.1 hname with rfl | rfl <;> decide
  exact hplain (List.mem_pair.2 (hhosted (isDisplayed_of_mem_under hname hv)))

/-- The listed display values are among the nodes that the two display members open to, in the same
order, and they are all of them exactly if none stands deeper than directly in a list. The walk over
what is displayed does not go into these members either. -/
theorem displayValues_eq_iff (n : Node) :
    n.displayValues.Sublist (n.under "displayValue" ++ n.under "@displayValue") ∧
      (n.displayValues = n.under "displayValue" ++ n.under "@displayValue" ↔
        ∀ name ∈ ["displayValue", "@displayValue"], ∀ v, n.get? name = some v → v.NodesAtTop) ∧
      ∀ step ∈ Rule.steps Rule.displayable n, step.1 ∉ ["displayValue", "@displayValue"] := by
  have hfirst := n.displayedUnder_sublist "displayValue"
  have hsecond := n.displayedUnder_sublist "@displayValue"
  rw [displayValues_eq]
  refine ⟨hfirst.append hsecond, ?_, fun step hstep => not_mem_displayNames_of_step hstep⟩
  rw [append_eq_append_iff_of_sublist hfirst hsecond, displayedUnder_eq_iff, displayedUnder_eq_iff,
    List.forall_mem_cons, List.forall_mem_singleton]

/-- The mesh of the facade stands in a map: there is something to display, and no node is listed. -/
theorem displayValues_sampleFacade :
    sampleFacade.Reachable ∧ sampleFacade.IsDisplayed ∧ sampleFacade.displayValues = [] ∧
      sampleFacade.under "displayValue" ++ sampleFacade.under "@displayValue" =
        [⟨⟨[2]⟩, new "Kit.Mesh"⟩] :=
  ⟨reachable_sampleFacade (.here _), hasDisplayValue_iff.1 rfl, by rfl, by rfl⟩

end Node

end ObjectGraph
