import ObjectGraph.Proofs.Identity.Content
import ObjectGraph.Proofs.Value.Equality

/-!
# Content ids of equal nodes

Equality of values over shared nodes is a partial equivalence, and equal nodes have the same
canonical text, or none of them has one (`Value.equals_partialEquivalence`). What equality does not
see, the text does not show: the order of members and of keys, handles, and the sign of a zero, as
both zeros are written alike (`Value.contentText?_zero`).
-/

namespace ObjectGraph

open Entries (RelatedByKey)

/-- Entries related by key have related values under each key. -/
theorem Entries.RelatedByKey.valuesAt {α : Type} {R : α → α → Prop} {xs ys : List (String × α)}
    (h : RelatedByKey R xs ys) (k : String) :
    List.Forall₂ R (Entries.valuesAt k xs) (Entries.valuesAt k ys) := by
  rw [valuesAt_of_nodup h.keys.nodup, valuesAt_of_nodup h.keys.symm.nodup]
  cases hv : get? k xs with
  | none =>
      have hkey : k ∉ Entries.keys ys := fun hmem =>
        get?_eq_none_iff.1 hv (h.keys.perm.mem_iff.2 hmem)
      rw [get?_eq_none_iff.2 hkey]
      exact .nil
  | some v =>
      obtain ⟨w, -, hw⟩ := h.keys.exists_get? (mem_of_get? hv)
      rw [hw]
      exact .cons (h.values k v w hv hw) .nil

/-- The same text under every name, or none under any. -/
def Value.SameText (v w : Value) : Prop :=
  ∀ name, v.contentText? name = w.contentText? name

theorem contentTexts?_congr {xs ys : List Value} (h : List.Forall₂ Value.SameText xs ys)
    (name : String) : contentTexts? name xs = contentTexts? name ys := by
  induction h with
  | nil => rfl
  | cons hfirst _ ih => rw [contentTexts?_cons, contentTexts?_cons, hfirst name, ih]

theorem Value.contentText?_zero {x : Binary64} (h : x.isZero = true) (name : String) :
    (Value.float x).contentText? name = some "0" := by
  rw [contentText?, canonicalTree, dif_pos (Binary64.isFinite_of_isZero h)]
  simp [Except.toOption, Document.written, Binary64.finiteText, h]

section Over

variable {heap : Handle → Node} {a b : Node} {v : Value}

/-- Nodes that agree have the same text if their members do. -/
theorem Node.Agrees.canonicalText_eq (h : a.Agrees b) (ha : a.Over heap) (hb : b.Over heap)
    (ih : ∀ member ∈ a.members .all, ∀ {w}, member.2.Over heap → w.Over heap →
      member.2.equals w = true → member.2.SameText w) :
    a.canonicalText.toOption = b.canonicalText.toOption := by
  have hdeclared : RelatedByKey Value.SameText a.declared b.declared :=
    h.declared.imp fun x hx y hy =>
      ih x (List.mem_append_left _ hx) (ha.of_declared x hx) (hb.of_declared y hy)
  have hdynamic : RelatedByKey Value.SameText a.dynamic b.dynamic :=
    h.dynamic.imp fun x hx y hy =>
      ih x (List.mem_append_right _ hx) (ha.of_dynamic x hx) (hb.of_dynamic y hy)
  -- The ids and the members that do not count are compared as well, and are not needed.
  apply canonicalText_congr h.typeName h.applicationId
  intro name _
  rw [members, members, Entries.valuesAt_append, Entries.valuesAt_append]
  exact contentTexts?_congr
    (List.rel_append (hdeclared.valuesAt name) (hdynamic.valuesAt name)) name

/-- Equal values have the same text, or none of them has one. -/
theorem Value.sameText_of_equals :
    ∀ {w}, v.Over heap → w.Over heap → v.equals w = true → v.SameText w := by
  induction v using Value.induction with
  | primitive v hprimitive =>
      intro w hv hw h name
      cases (equals_iff hv hw).1 h with
      | same => rfl
      | zero hx hy => rw [contentText?_zero hx, contentText?_zero hy]
      | node | list | map => cases hprimitive
  | node handle a ih =>
      intro w hv hw h name
      cases (equals_iff hv hw).1 h with
      | same => rfl
      | node hparts =>
          rw [contentText?_node, contentText?_node]
          exact hparts.canonicalText_eq hv.of_node.2 hw.of_node.2 ih
  | list items ih =>
      intro w hv hw h name
      cases (equals_iff hv hw).1 h with
      | same => rfl
      | list hparts =>
          have htexts : List.Forall₂ SameText items _ := forall₂_imp hparts fun x hx y hy =>
            ih x hx (hv.of_list x hx) (hw.of_list y hy)
          rw [contentText?_list, contentText?_list, contentTexts?_congr htexts]
  | map entries ih =>
      intro w hv hw h name
      cases (equals_iff hv hw).1 h with
      | same => rfl
      | map hparts =>
          have htexts : RelatedByKey SameText entries _ := hparts.imp fun x hx y hy =>
            ih x hx (hv.of_map.2 x hx) (hw.of_map.2 y hy)
          apply contentText?_map_congr
          intro k
          exact contentTexts?_congr (htexts.valuesAt k) k

theorem Node.canonicalText_of_equals (ha : a.Over heap) (hb : b.Over heap) (h : a.equals b = true) :
    a.canonicalText.toOption = b.canonicalText.toOption :=
  ((equals_iff ha).1 h).canonicalText_eq ha hb fun _ _ => Value.sameText_of_equals

end Over

/-- Over one set of shared nodes, equality is symmetric and transitive; a value is equal to itself
exactly if no NaN stands in it outside of nodes; and of two equal nodes either both have the same
canonical text or none has one. -/
theorem Value.equals_partialEquivalence (heap : Handle → Node) :
    (∀ v w : Value, v.Over heap → w.Over heap → v.equals w = true → w.equals v = true) ∧
    (∀ u v w : Value, u.Over heap → v.Over heap → w.Over heap →
      u.equals v = true → v.equals w = true → u.equals w = true) ∧
    (∀ v : Value, v.Over heap → (v.equals v = true ↔ ¬ v.ShowsNaN)) ∧
    ∀ a b : Node, a.Over heap → b.Over heap → a.equals b = true →
      (∃ text, a.canonicalText = .ok text ∧ b.canonicalText = .ok text) ∨
        ∃ e f, a.canonicalText = .error e ∧ b.canonicalText = .error f := by
  refine ⟨?_, ?_, ?_, ?_⟩
  · exact fun v w hv hw h => equals_symm hv hw h
  · exact fun u v w hu hv hw huv hvw => equals_trans hu hv hw huv hvw
  · exact fun v hv => equals_self_iff hv
  · exact fun a b ha hb h => toOption_eq_iff.1 (Node.canonicalText_of_equals ha hb h)

namespace Node

/-- A reading that is not a number. -/
def sampleReading : Node where
  typeName := "Kit.Reading"
  id := none
  applicationId := none
  declared := []
  dynamic := [("raw", .float ⟨0x7ff8000000000000⟩)]

/-- A sensor at zero with its last reading. -/
def sampleSensor : Node where
  typeName := "Kit.Sensor"
  id := none
  applicationId := none
  declared := []
  dynamic := [("offset", .float ⟨0⟩), ("__last", .node ⟨[1]⟩ sampleReading)]

/-- The same reading, and zero with the other sign. -/
def sampleSensorCopy : Node where
  typeName := "Kit.Sensor"
  id := none
  applicationId := none
  declared := []
  dynamic := [("__last", .node ⟨[1]⟩ sampleReading), ("offset", .float ⟨0x8000000000000000⟩)]

/-- One reading under a handle of its own, one sensor, and copies of it. -/
def sampleHeap (handle : Handle) : Node :=
  match handle.steps with
  | [1] => sampleReading
  | [2] => sampleSensor
  | _ => sampleSensorCopy

theorem sampleReading_over : sampleReading.Over sampleHeap where
  declared := by decide
  dynamic := by decide
  members := by
    rintro member (_ | ⟨_, ⟨⟩⟩)
    exact .primitive rfl

theorem sampleSensor_over : sampleSensor.Over sampleHeap where
  declared := by decide
  dynamic := by decide
  members := by
    rintro member (_ | ⟨_, _ | ⟨_, ⟨⟩⟩⟩)
    · exact .primitive rfl
    · exact sampleReading_over.toValue rfl

theorem sampleSensorCopy_over : sampleSensorCopy.Over sampleHeap where
  declared := by decide
  dynamic := by decide
  members := by
    rintro member (_ | ⟨_, _ | ⟨_, ⟨⟩⟩⟩)
    · exact sampleReading_over.toValue rfl
    · exact .primitive rfl

/-- Equality is symmetric and transitive at these nodes, a list is equal to itself although its node
holds NaN, and equal nodes share their text. -/
theorem equals_sampleSensor :
    (Value.node ⟨[3]⟩ sampleSensorCopy).equals (.node ⟨[2]⟩ sampleSensor) = true ∧
      (Value.node ⟨[2]⟩ sampleSensor).equals (.node ⟨[4]⟩ sampleSensorCopy) = true ∧
      (Value.list [.node ⟨[1]⟩ sampleReading]).equals (.list [.node ⟨[1]⟩ sampleReading]) = true ∧
      ((∃ text, sampleSensor.canonicalText = .ok text ∧ sampleSensorCopy.canonicalText = .ok text) ∨
        ∃ e f, sampleSensor.canonicalText = .error e ∧
          sampleSensorCopy.canonicalText = .error f) := by
  obtain ⟨hsymm, htrans, hself, htext⟩ := Value.equals_partialEquivalence sampleHeap
  have hsensor : (Value.node ⟨[2]⟩ sampleSensor).Over sampleHeap := sampleSensor_over.toValue rfl
  have hcopy : (Value.node ⟨[3]⟩ sampleSensorCopy).Over sampleHeap :=
    sampleSensorCopy_over.toValue rfl
  have hother : (Value.node ⟨[4]⟩ sampleSensorCopy).Over sampleHeap :=
    sampleSensorCopy_over.toValue rfl
  refine ⟨?_, ?_, ?_, ?_⟩
  · exact hsymm _ _ hsensor hcopy (by decide +kernel)
  · exact htrans _ _ _ hsensor hcopy hother (by decide +kernel) (by decide +kernel)
  · refine (hself _ (.list ?_)).2 ?_
    · rintro item (_ | ⟨_, ⟨⟩⟩)
      exact sampleReading_over.toValue rfl
    · -- The reading is a NaN, but it stands in a node.
      simp only [Value.showsNaN_list_iff, List.mem_singleton, exists_eq_left]
      rintro ⟨⟩
  · exact htext _ _ sampleSensor_over sampleSensorCopy_over (by decide +kernel)

end Node

end ObjectGraph
