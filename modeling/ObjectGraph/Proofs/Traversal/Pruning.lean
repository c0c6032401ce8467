import ObjectGraph.Proofs.Traversal.LevelOrder

/-!
# Walks that leave subtrees out

A rule in front of the others that hides the nodes with a property, and stops at them, cuts out
these nodes with everything below them and nothing else (`Walk.returns_pruned`). The other contexts
come in the same order and with the same paths.

The two walks do not have the same contexts at a level: a node that is cut out still waits in the
queue of one of them, and what is below it in that of the other. `Rule.Trimmed` is what the levels
have in common.
-/

namespace ObjectGraph

/-- Whether no node of the path has the property, neither that of the context nor one of those above
it. -/
def Context.avoids (p : Node → Bool) (c : Context) : Bool :=
  c.ascendants.all fun v => !p v.node

/-- Hides the nodes with a property and stops at them. -/
def Rule.pruning (p : Node → Bool) : Rule :=
  ((when p).descendNone).showing false

section Contexts

variable {p : Node → Bool} {rules : List Rule} {c d : Context} {n : Node}

theorem Context.avoids_root (v : Vertex) : (root v).avoids p = !p v.node :=
  Bool.and_true _

theorem Context.avoids_child (v : Vertex) (name : String) :
    (child v name c).avoids p = (!p v.node && c.avoids p) := rfl

theorem Context.not_of_avoids (h : c.avoids p = true) : p c.node = false := by
  cases c with
  | root v =>
      rw [avoids_root, Bool.not_eq_true'] at h
      exact h
  | child v name parent =>
      rw [avoids_child, Bool.and_eq_true, Bool.not_eq_true'] at h
      exact h.1

namespace Rule

/-- A path is avoiding if the path to the node above is and its own node has not the property. -/
theorem avoids_of_mem_expand (h : d ∈ expand rules c) : d.avoids p = (!p d.node && c.avoids p) := by
  obtain ⟨name, -, v, -, rfl⟩ := mem_expand_iff.1 h
  exact Context.avoids_child v name

theorem active_pruning_of_true (h : p n = true) : active (pruning p :: rules) n = pruning p := by
  simp [active, pruning, when, descendNone, descend, showing, applies, h]

theorem active_pruning_of_false (h : p n = false) :
    active (pruning p :: rules) n = active rules n := by
  simp [active, pruning, when, descendNone, descend, showing, applies, h]

/-- Pruned nodes are not shown, and the others are shown as before. -/
theorem shows_pruning (rules : List Rule) (c : Context) :
    shows (pruning p :: rules) c = (!p c.node && shows rules c) := by
  cases h : p c.node with
  | true =>
      rw [shows, active_pruning_of_true h]
      rfl
  | false =>
      rw [shows, active_pruning_of_false h]
      rfl

theorem expand_pruning_of_true (h : p c.node = true) : expand (pruning p :: rules) c = [] := by
  rw [expand_eq, active_pruning_of_true h]
  rfl

theorem expand_pruning_of_false (h : p c.node = false) :
    expand (pruning p :: rules) c = expand rules c := by
  rw [expand_eq, expand_eq, active_pruning_of_false h]

/-- Below a level, the paths that avoid the property go on from paths that avoid it. -/
theorem filter_avoids_flatMap (p : Node → Bool) (rules : List Rule) (level : List Context) :
    (level.flatMap (expand rules)).filter (Context.avoids p) =
      ((level.filter (Context.avoids p)).flatMap (expand rules)).filter (Context.avoids p) := by
  induction level with
  | nil => rfl
  | cons c rest ih =>
      rw [List.flatMap_cons, List.filter_append, ih]
      cases havoids : c.avoids p with
      | true => rw [List.filter_cons_of_pos havoids, List.flatMap_cons, List.filter_append]
      | false =>
          have hnone : (expand rules c).filter (Context.avoids p) = [] := by
            apply List.filter_eq_nil_iff.2
            intro d hd
            simp [avoids_of_mem_expand hd, havoids]
          rw [List.filter_cons_of_neg (by simp [havoids]), hnone, List.nil_append]

end Rule

end Contexts

/-! ## Level by level -/

/-- A level of the pruning walk and the same level of the other walk. They have the same contexts on
paths that avoid the property. Any other context of the pruning walk has the property at its own
node, so the walk goes no further there. -/
structure Rule.Trimmed (p : Node → Bool) (pruned level : List Context) : Prop where
  kept : pruned.filter (Context.avoids p) = level.filter (Context.avoids p)
  cut : ∀ c ∈ pruned, c.avoids p = false → p c.node = true

namespace Rule.Trimmed

variable {p : Node → Bool} {rules : List Rule} {pruned level : List Context}

/-- Of a level, the pruning walk shows what the other one shows on paths that avoid the property. -/
theorem filter_shows (h : Trimmed p pruned level) (rules : List Rule) :
    pruned.filter (shows (pruning p :: rules)) =
      (level.filter (shows rules)).filter (Context.avoids p) := by
  have hshows : ∀ c ∈ pruned, shows (pruning p :: rules) c = (shows rules c && c.avoids p) := by
    intro c hc
    rw [shows_pruning, Bool.and_comm]
    cases havoids : c.avoids p with
    | true => rw [Context.not_of_avoids havoids, Bool.not_false]
    | false => rw [h.cut c hc havoids, Bool.not_true]
  calc pruned.filter (shows (pruning p :: rules))
      = (pruned.filter (Context.avoids p)).filter (shows rules) := by
        rw [List.filter_congr hshows, List.filter_filter]
    _ = (level.filter (Context.avoids p)).filter (shows rules) := by rw [h.kept]
    _ = (level.filter (shows rules)).filter (Context.avoids p) := by
        simp only [List.filter_filter, Bool.and_comm]

/-- Of a level, the pruning walk goes on from the contexts on paths that avoid the property. -/
theorem flatMap_expand (h : Trimmed p pruned level) (rules : List Rule) :
    pruned.flatMap (expand (pruning p :: rules)) =
      (level.filter (Context.avoids p)).flatMap (expand rules) := by
  obtain ⟨hkept, hcut⟩ := h
  rw [← hkept]
  clear hkept
  induction pruned with
  | nil => rfl
  | cons c rest ih =>
      obtain ⟨hc, hrest⟩ := List.forall_mem_cons.1 hcut
      rw [List.flatMap_cons, ih hrest]
      cases havoids : c.avoids p with
      | true =>
          rw [expand_pruning_of_false (Context.not_of_avoids havoids),
            List.filter_cons_of_pos havoids, List.flatMap_cons]
      | false =>
          rw [expand_pruning_of_true (hc havoids), List.filter_cons_of_neg (by simp [havoids]),
            List.nil_append]

/-- The levels below are related in the same way. -/
theorem next (h : Trimmed p pruned level) (rules : List Rule) :
    Trimmed p (pruned.flatMap (expand (pruning p :: rules))) (level.flatMap (expand rules)) := by
  rw [h.flatMap_expand]
  constructor
  · exact (filter_avoids_flatMap p rules level).symm
  · intro d hd havoids
    obtain ⟨c, hc, hd⟩ := List.mem_flatMap.1 hd
    -- The path to `c` avoids the property, so it is met at the last node.
    rw [avoids_of_mem_expand hd, (List.mem_filter.1 hc).2, Bool.and_true,
      Bool.not_eq_false'] at havoids
    exact havoids

end Rule.Trimmed

namespace Walk

open Rule (pruning Trimmed)

/-- Step by step, what the pruned walk shows is what avoids the predicate. -/
theorem shownFrom_pruning {p : Node → Bool} {rules : List Rule} {pruned level : List Context}
    (h : Trimmed p pruned level) :
    shownFrom (pruning p :: rules) pruned = (shownFrom rules level).filter (Context.avoids p) := by
  -- The induction is on the weight of the level of the walk that does not prune.
  induction hw : Rule.totalWeight rules level using Nat.strongRecOn generalizing pruned level with
  | ind weight ih =>
      rw [shownFrom_level (pruning p :: rules), h.filter_shows]
      by_cases hne : level = []
      · subst hne
        rw [h.flatMap_expand, shownFrom_nil]
        exact shownFrom_nil _
      · have hlt := Rule.totalWeight_flatMap_expand rules level
        have hpos := List.length_pos_iff.2 hne
        rw [shownFrom_level rules level, List.filter_append, ih _ (by omega) (h.next rules) rfl]

/-- With a rule in front that hides the nodes with a property and stops at them, a walk returns
those contexts of the walk without it on whose path, from the root to the node itself, no node has
the property. Their order stays, and so do their paths. -/
theorem returns_pruned (p : Node → Bool) (rules : List Rule) (root : Vertex) :
    ∃ cs, (start rules root).Returns cs ∧
      (start (((Rule.when p).descendNone).showing false :: rules) root).Returns
        (cs.filter fun c => ∀ v ∈ c.ascendants, p v.node = false) := by
  refine ⟨(start rules root).toList, returns_iff.2 rfl, returns_iff.2 ?_⟩
  have hroot : Trimmed p [.root root] [.root root] := by
    refine ⟨rfl, ?_⟩
    intro c hc havoids
    rw [List.mem_singleton.1 hc, Context.avoids_root, Bool.not_eq_false'] at havoids
    rw [List.mem_singleton.1 hc]
    exact havoids
  have hshown : (start (pruning p :: rules) root).toList =
      (start rules root).toList.filter (Context.avoids p) := shownFrom_pruning hroot
  have havoids : (fun c : Context => decide (∀ v ∈ c.ascendants, p v.node = false)) =
      Context.avoids p := by
    funext c
    rw [Context.avoids, ← Bool.coe_iff_coe]
    simp
  rw [havoids]
  exact hshown.symm

end Walk

end ObjectGraph
