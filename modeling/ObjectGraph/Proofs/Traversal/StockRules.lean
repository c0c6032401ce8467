import ObjectGraph.Proofs.Text
import ObjectGraph.Proofs.Traversal.LevelOrder
import ObjectGraph.Traversal.Rule

/-!
# Where the stock rules go

Every step on the path of a context that a walk shows is one that the rules take: the member is
selected by the active rule of the node above (`Walk.step_of_mem_toList`). So which nodes can stand
above a shown context is read off the rules one node at a time. The rules for displayable nodes open
no result of an analysis. Those for convertible nodes look at conversion and display first, and open
such a result at its hosted elements if it can be converted or has a display value
(`Walk.stock_results`).
-/

namespace ObjectGraph

namespace Context

/-- The nodes above a context are those that its steps start from. -/
theorem mem_tail_ascendants_iff {c : Context} {v : Vertex} :
    v ∈ c.ascendants.tail ↔ ∃ d ∈ c.ancestors, ∃ e, d.parent? = some e ∧ e.vertex = v := by
  induction c with
  | root w => simp [ascendants, ancestors, parent?]
  | child w name parent ih =>
      have hparent : parent.ascendants = parent.vertex :: parent.ascendants.tail := by
        cases parent <;> rfl
      have htail : (child w name parent).ascendants.tail = parent.ascendants := rfl
      rw [htail, hparent, List.mem_cons, ih]
      simp only [ancestors, List.mem_cons]
      constructor
      · rintro (rfl | ⟨d, hd, e, he, rfl⟩)
        · exact ⟨_, .inl rfl, parent, rfl, rfl⟩
        · exact ⟨d, .inr hd, e, he, rfl⟩
      · rintro ⟨d, rfl | hd, e, he, rfl⟩
        · cases he
          exact .inl rfl
        · exact .inr ⟨d, hd, e, he, rfl⟩

end Context

/-- Every step on the path of a context that is shown is one that the rules take. -/
theorem Walk.step_of_mem_toList {rules : List Rule} {root : Vertex} {c : Context}
    (hc : c ∈ (start rules root).toList) :
    ∀ d ∈ c.ancestors, ∀ e, d.parent? = some e →
      ∃ name ∈ (Rule.active rules e.node).members e.node, d.member? = some name := by
  revert c
  apply forall_mem_toList
  · intro d hd e he
    rw [List.mem_singleton.1 hd] at he
    cases he
  · intro c ih d hd
    obtain ⟨name, hname, v, -, rfl⟩ := Rule.mem_expand_iff.1 hd
    intro d' hd' e he
    rcases List.mem_cons.1 hd' with rfl | hd'
    · cases he
      exact ⟨name, hname, rfl⟩
    · exact ih d' hd' e he

namespace Rule

variable {n : Node} {canConvert : Node → Bool} {name : String}

/-- Results of an analysis are not opened, whatever else they are. -/
theorem not_mem_members_displayable (h : n.isStructuralResult = true) :
    name ∉ (active displayable n).members n := by
  have happlies : ignoreResults.applies n = true := by
    simp [ignoreResults, when, descendNone, descend, applies, h]
  have hactive : active displayable n = ignoreResults := by
    simp [active, displayable, happlies]
  rw [hactive]
  exact List.not_mem_nil

/-- A result of an analysis is opened only if it can be converted or has a display value, and at its
hosted elements only. -/
theorem mem_members_convertible (h : n.isStructuralResult = true)
    (hname : name ∈ (active (convertible canConvert) n).members n) :
    (canConvert n = true ∨ n.hasDisplayValue = true) ∧ name ∈ Node.elementNames := by
  by_cases hfirst : canConvert n = true ∨ n.hasDisplayValue = true
  · refine ⟨hfirst, ?_⟩
    have hactive : active (convertible canConvert) n =
        ((when canConvert).orWhen Node.hasDisplayValue).descendInto Node.elementNames := by
      simp [active, convertible, when, orWhen, descendInto, descend, applies, hfirst]
    rw [hactive] at hname
    exact hname
  · have hactive : active (convertible canConvert) n = ignoreResults := by
      simp only [not_or, Bool.not_eq_true] at hfirst
      simp [active, convertible, ignoreResults, when, orWhen, descendInto, descendNone,
        descend, applies, h, hfirst.1, hfirst.2]
    rw [hactive] at hname
    cases hname

end Rule

/-- No context shown by the rules for displayable nodes stands below a result of an analysis. One
shown by the rules for convertible nodes stands below such a result only if the result can be
converted or has a display value, and was reached through its hosted elements. -/
theorem Walk.stock_results (canConvert : Node → Bool) (root : Vertex) :
    (∀ c ∈ (start Rule.displayable root).toList, ∀ v ∈ c.ascendants.tail,
      ¬ "Objects.Structural.Results".toList <:+: v.node.typeName.toList) ∧
    ∀ c ∈ (start (Rule.convertible canConvert) root).toList,
      ∀ d ∈ c.ancestors, ∀ e, d.parent? = some e →
        "Objects.Structural.Results".toList <:+: e.node.typeName.toList →
          (canConvert e.node = true ∨ e.node.hasDisplayValue = true) ∧
            (d.member? = some "elements" ∨ d.member? = some "@elements") := by
  constructor
  · intro c hc v hv hresult
    obtain ⟨d, hd, e, he, rfl⟩ := Context.mem_tail_ascendants_iff.1 hv
    obtain ⟨name, hname, -⟩ := step_of_mem_toList hc d hd e he
    exact Rule.not_mem_members_displayable (Text.contains_iff.2 hresult) hname
  · intro c hc d hd e he hresult
    obtain ⟨name, hname, hmember⟩ := step_of_mem_toList hc d hd e he
    obtain ⟨hopened, helement⟩ := Rule.mem_members_convertible (Text.contains_iff.2 hresult) hname
    refine ⟨hopened, ?_⟩
    rw [hmember]
    simpa [Node.elementNames] using helement

/-- A result of an analysis that has a drawing and a note. -/
def Node.sampleResult : Node where
  typeName := "Objects.Structural.Results.Result1D"
  id := none
  applicationId := none
  declared := []
  dynamic := [("displayValue", .string "diagram"),
    ("elements", .list [.node ⟨[0, 1, 0]⟩ (.new "Kit.Note")])]

namespace Context

/-- The root of a model that has the result. -/
def sampleModel : Context :=
  .root ⟨⟨[]⟩, { Node.new "Base" with dynamic := [("@results", .node ⟨[0]⟩ Node.sampleResult)] }⟩

/-- The result below the root. -/
def sampleResult : Context :=
  .child ⟨⟨[0]⟩, Node.sampleResult⟩ "@results" sampleModel

/-- The note below the result. -/
def sampleNote : Context :=
  .child ⟨⟨[0, 1, 0]⟩, .new "Kit.Note"⟩ "elements" sampleResult

end Context

namespace Walk

open Context (sampleModel sampleResult sampleNote)

/-- The rules for displayable nodes show the result and not the note below it. -/
theorem toList_displayable_sampleModel :
    (start Rule.displayable sampleModel.vertex).toList = [sampleModel, sampleResult] := by
  have hmodel : Rule.expand Rule.displayable sampleModel = [sampleResult] := by rfl
  have hresult : Rule.expand Rule.displayable sampleResult = [] := by rfl
  change shownFrom Rule.displayable [sampleModel] = _
  rw [shownFrom_level, List.flatMap_singleton, hmodel, shownFrom_level,
    List.flatMap_singleton, hresult, shownFrom_nil]
  rfl

/-- The rules for convertible nodes show the note as well. -/
theorem toList_convertible_sampleModel :
    (start (Rule.convertible fun _ => false) sampleModel.vertex).toList =
      [sampleModel, sampleResult, sampleNote] := by
  have hmodel : Rule.expand (Rule.convertible fun _ => false) sampleModel = [sampleResult] := by rfl
  have hresult : Rule.expand (Rule.convertible fun _ => false) sampleResult = [sampleNote] := by rfl
  have hnote : Rule.expand (Rule.convertible fun _ => false) sampleNote = [] := by rfl
  change shownFrom (Rule.convertible fun _ => false) [sampleModel] = _
  rw [shownFrom_level, List.flatMap_singleton, hmodel, shownFrom_level,
    List.flatMap_singleton, hresult, shownFrom_level, List.flatMap_singleton, hnote, shownFrom_nil]
  rfl

/-- The rules for displayable nodes do not open the result. Those for convertible nodes do, since it
has a display value, and only at its elements. -/
theorem stock_results_sampleModel :
    (sampleResult ∈ (start Rule.displayable sampleModel.vertex).toList ∧
      sampleModel.vertex ∈ sampleResult.ascendants.tail ∧
      ¬ "Objects.Structural.Results".toList <:+: sampleModel.node.typeName.toList) ∧
    sampleNote ∈ (start (Rule.convertible fun _ => false) sampleModel.vertex).toList ∧
      sampleNote ∈ sampleNote.ancestors ∧ sampleNote.parent? = some sampleResult ∧
      "Objects.Structural.Results".toList <:+: sampleResult.node.typeName.toList ∧
      (false = true ∨ sampleResult.node.hasDisplayValue = true) ∧
      (sampleNote.member? = some "elements" ∨ sampleNote.member? = some "@elements") := by
  obtain ⟨hdisplayable, hconvertible⟩ := stock_results (fun _ => false) sampleModel.vertex
  have hfound : sampleResult ∈ (start Rule.displayable sampleModel.vertex).toList := by
    rw [toList_displayable_sampleModel]
    exact List.mem_cons_of_mem _ List.mem_cons_self
  have hnote :
      sampleNote ∈ (start (Rule.convertible fun _ => false) sampleModel.vertex).toList := by
    rw [toList_convertible_sampleModel]
    exact List.mem_cons_of_mem _ (List.mem_cons_of_mem _ List.mem_cons_self)
  have habove : sampleModel.vertex ∈ sampleResult.ascendants.tail := List.mem_cons_self
  have hself : sampleNote ∈ sampleNote.ancestors := List.mem_cons_self
  have hresult : "Objects.Structural.Results".toList <:+: sampleResult.node.typeName.toList :=
    Text.contains_iff.1 rfl
  exact ⟨⟨hfound, habove, hdisplayable sampleResult hfound _ habove⟩, hnote, hself, rfl, hresult,
    hconvertible sampleNote hnote sampleNote hself sampleResult rfl hresult⟩

/-- The rules for convertible nodes show the note, which stands below the result. -/
theorem stock_opens_result :
    sampleNote ∈ (start (Rule.convertible fun _ => false) sampleModel.vertex).toList ∧
      sampleResult.vertex ∈ sampleNote.ascendants.tail ∧
      "Objects.Structural.Results".toList <:+: sampleResult.node.typeName.toList := by
  refine ⟨?_, List.mem_cons_self, Text.contains_iff.1 rfl⟩
  rw [toList_convertible_sampleModel]
  exact List.mem_cons_of_mem _ (List.mem_cons_of_mem _ List.mem_cons_self)

end Walk

end ObjectGraph
