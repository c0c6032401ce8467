import ObjectGraph.Traversal.Rule
import ObjectGraph.Value

/-!
# Walks

A walk goes through a graph level by level. It keeps the contexts that wait to be visited; each step
takes the first one, puts the nodes under the members that its active rule selects at the end, and
shows the context if the rule says so. Nodes inside lists and maps count as nodes of the member. A
node that is reached along two paths is visited once for each.

A node inside a member is smaller than the node that has the member, so the weight of a node, the
number of visits that it causes, is finite, and every step lowers the weight of the waiting
contexts.
-/

namespace ObjectGraph

/-! ## Paths from the root

A context is a node together with the way it was reached: the root itself, or a member of the node
of another context. Lists and maps on the way add nothing to the path.
-/

/-- A node and the path to it. -/
inductive Context where
  | root (vertex : Vertex)
  /-- Reached from the node of `parent` through the member of that name. -/
  | child (vertex : Vertex) (member : String) (parent : Context)

namespace Context

/-- The node that the path leads to. -/
def vertex : Context → Vertex
  | .root v => v
  | .child v _ _ => v

/-- The node itself, without its handle. -/
def node (c : Context) : Node :=
  c.vertex.node

/-- The member through which the node was reached. -/
def member? : Context → Option String
  | .root _ => none
  | .child _ name _ => some name

/-- The context of the node that has that member. -/
def parent? : Context → Option Context
  | .root _ => none
  | .child _ _ parent => some parent

/-- Whether the path has no steps. -/
def isRoot : Context → Bool
  | .root _ => true
  | .child .. => false

/-- This context and the enclosing ones up to the root. -/
def ancestors : Context → List Context
  | .root v => [.root v]
  | .child v name parent => .child v name parent :: parent.ancestors

/-- The number of steps from the root. -/
def depth : Context → Nat
  | .root _ => 0
  | .child _ _ parent => parent.depth + 1

/-- The names of the members on the path, the last step first. -/
def propertyPath : Context → List String
  | .root _ => []
  | .child _ name parent => name :: parent.propertyPath

/-- The nodes from this one up to the root. -/
def ascendants (c : Context) : List Vertex :=
  c.ancestors.map vertex

/-- The nearest node, this one included, that satisfies a condition. -/
def findAscendant? (c : Context) (p : Node → Bool) : Option Vertex :=
  c.ascendants.find? fun v => p v.node

/-- The depth is the length of the path. -/
theorem length_propertyPath (c : Context) : c.propertyPath.length = c.depth := by
  induction c with
  | root v => rfl
  | child v name parent ih => simp [propertyPath, depth, ih]

/-- There is one ancestor more than steps. -/
theorem length_ancestors (c : Context) : c.ancestors.length = c.depth + 1 := by
  induction c with
  | root v => rfl
  | child v name parent ih => simp [ancestors, depth, ih]

end Context

/-! ## Steps of a walk -/

mutual

/-- The nodes of a value, in order, with lists and maps opened at every depth. -/
def Value.vertices : Value → List Vertex
  | .node handle content => [⟨handle, content⟩]
  | .list items => listVertices items
  | .map entries => entryVertices entries
  | .null | .bool _ | .int _ | .float _ | .string _ => []

/-- The nodes of the elements of a list. -/
def listVertices : List Value → List Vertex
  | [] => []
  | item :: rest => item.vertices ++ listVertices rest

/-- The nodes of the values of a map. -/
def entryVertices : List (String × Value) → List Vertex
  | [] => []
  | (_, value) :: rest => value.vertices ++ entryVertices rest

end

namespace Node

/-- The nodes under one member. -/
def under (n : Node) (name : String) : List Vertex :=
  match n.get? name with
  | some value => value.vertices
  | none => []

end Node

mutual

/-- A node inside a value is smaller than the value. -/
theorem Value.sizeOf_vertices {x : Vertex} :
    ∀ {v : Value}, x ∈ v.vertices → sizeOf x.node < sizeOf v
  | .node handle content, h => by
      rw [Value.vertices, List.mem_singleton] at h
      subst h
      simp only [Value.node.sizeOf_spec]
      omega
  | .list items, h => by
      rw [Value.vertices] at h
      have := sizeOf_listVertices h
      simp only [Value.list.sizeOf_spec]
      omega
  | .map entries, h => by
      rw [Value.vertices] at h
      have := sizeOf_entryVertices h
      simp only [Value.map.sizeOf_spec]
      omega
  | .null, h | .bool _, h | .int _, h | .float _, h | .string _, h => by
      rw [Value.vertices] at h
      cases h

/-- A node inside a list is smaller than the list. -/
theorem sizeOf_listVertices {x : Vertex} :
    ∀ {items : List Value}, x ∈ listVertices items → sizeOf x.node < sizeOf items
  | [], h => by cases h
  | item :: rest, h => by
      rw [listVertices, List.mem_append] at h
      simp only [List.cons.sizeOf_spec]
      rcases h with h | h
      · have := Value.sizeOf_vertices h
        omega
      · have := sizeOf_listVertices h
        omega

/-- A node inside a map is smaller than its entries. -/
theorem sizeOf_entryVertices {x : Vertex} :
    ∀ {entries : List (String × Value)}, x ∈ entryVertices entries → sizeOf x.node < sizeOf entries
  | [], h => by cases h
  | (key, value) :: rest, h => by
      rw [entryVertices, List.mem_append] at h
      simp only [List.cons.sizeOf_spec, Prod.mk.sizeOf_spec]
      rcases h with h | h
      · have := Value.sizeOf_vertices h
        omega
      · have := sizeOf_entryVertices h
        omega

end

namespace Entries

/-- A value that is found in entries is smaller than they are. -/
theorem sizeOf_get? {name : String} {v : Value} :
    ∀ {entries : List (String × Value)}, get? name entries = some v → sizeOf v < sizeOf entries
  | [], h => by cases h
  | (key, value) :: rest, h => by
      simp only [List.cons.sizeOf_spec, Prod.mk.sizeOf_spec]
      rw [get?_cons] at h
      split at h
      · cases h
        omega
      · have := sizeOf_get? h
        omega

end Entries

namespace Node

/-- A node under a member is smaller than the node that has the member. -/
theorem sizeOf_under {n : Node} {name : String} {x : Vertex} (h : x ∈ n.under name) :
    sizeOf x.node < sizeOf n := by
  obtain ⟨type, id, app, declared, dynamic⟩ := n
  simp only [under, get?] at h
  cases hh : Header.ofName? name with
  | some header =>
      -- A header field holds a text or null, so there is no node under it.
      rw [hh] at h
      cases header <;> simp only [Node.header] at h
      · cases h
      · cases id <;> cases h
      · cases app <;> cases h
  | none =>
      rw [hh] at h
      simp only at h
      cases hd : Entries.get? name declared with
      | some value =>
          rw [hd] at h
          have h1 := Value.sizeOf_vertices h
          have h2 := Entries.sizeOf_get? hd
          simp only [Node.mk.sizeOf_spec]
          omega
      | none =>
          rw [hd] at h
          cases hy : Entries.get? name dynamic with
          | some value =>
              rw [hy] at h
              have h1 := Value.sizeOf_vertices h
              have h2 := Entries.sizeOf_get? hy
              simp only [Node.mk.sizeOf_spec]
              omega
          | none =>
              rw [hy] at h
              cases h

end Node

namespace Rule

/-- The steps from a node to the nodes under the members that its active rule selects, each with the
name of the member. -/
def steps (rules : List Rule) (n : Node) : List (String × Vertex) :=
  ((active rules n).members n).flatMap fun name => (n.under name).map fun v => (name, v)

/-- A step leads to a smaller node. -/
theorem sizeOf_steps {rules : List Rule} {n : Node} {step : String × Vertex}
    (h : step ∈ steps rules n) : sizeOf step.2.node < sizeOf n := by
  simp only [steps, List.mem_flatMap, List.mem_map] at h
  obtain ⟨name, -, v, hv, rfl⟩ := h
  exact Node.sizeOf_under hv

/-- The number of visits that a node causes: its own, and those of the nodes that its steps lead
to. -/
def weight (rules : List Rule) (n : Node) : Nat :=
  (steps rules n).attach.foldr (fun ⟨step, _⟩ rest => weight rules step.2.node + rest) 1
termination_by sizeOf n
decreasing_by exact sizeOf_steps (by assumption)

theorem weight_eq (rules : List Rule) (n : Node) :
    weight rules n =
      (steps rules n).foldr (fun step rest => weight rules step.2.node + rest) 1 := by
  rw [weight]
  exact List.foldr_attach
    (f := fun (step : String × Vertex) rest => weight rules step.2.node + rest)

/-- The contexts of the nodes that the steps from a context lead to. -/
def expand (rules : List Rule) (c : Context) : List Context :=
  (steps rules c.node).map fun step => .child step.2 step.1 c

/-- The weight of all contexts of a list together. -/
def totalWeight (rules : List Rule) : List Context → Nat
  | [] => 0
  | c :: rest => weight rules c.node + totalWeight rules rest

theorem totalWeight_append (rules : List Rule) (cs ds : List Context) :
    totalWeight rules (cs ++ ds) = totalWeight rules cs + totalWeight rules ds := by
  induction cs with
  | nil => simp [totalWeight]
  | cons c cs ih =>
      simp only [List.cons_append, totalWeight, ih]
      omega

/-- The contexts that the steps from a context lead to weigh one less than the context. -/
theorem totalWeight_expand_succ (rules : List Rule) (c : Context) :
    totalWeight rules (expand rules c) + 1 = weight rules c.node := by
  rw [weight_eq, expand]
  induction steps rules c.node with
  | nil => rfl
  | cons step rest ih =>
      simp only [List.map_cons, totalWeight, List.foldr_cons, ← ih, Context.node, Context.vertex]
      omega

/-- Putting the steps from a context in its place lowers the weight. -/
theorem totalWeight_expand (rules : List Rule) (c : Context) (rest : List Context) :
    totalWeight rules (rest ++ expand rules c) < totalWeight rules (c :: rest) := by
  have h := totalWeight_expand_succ rules c
  rw [totalWeight_append, totalWeight]
  omega

end Rule

/-- A walk under way: its rules, and the contexts that wait to be visited. -/
structure Walk where
  rules : List Rule
  pending : List Context

namespace Walk

/-- The first context that is shown, and the contexts that wait after it. -/
def nextFrom (rules : List Rule) : List Context → Option (Context × List Context)
  | [] => none
  | c :: rest =>
      if (Rule.active rules c.node).yields then some (c, rest ++ Rule.expand rules c)
      else nextFrom rules (rest ++ Rule.expand rules c)
termination_by pending => Rule.totalWeight rules pending
decreasing_by exact Rule.totalWeight_expand rules c rest

/-- Each context that is shown lowers the weight of those that wait. -/
theorem totalWeight_nextFrom {rules : List Rule} {pending after : List Context} {c : Context}
    (h : nextFrom rules pending = some (c, after)) :
    Rule.totalWeight rules after < Rule.totalWeight rules pending := by
  fun_induction nextFrom rules pending with
  | case1 => cases h
  | case2 d rest _ =>
      cases h
      exact Rule.totalWeight_expand rules c rest
  | case3 d rest _ ih =>
      exact Nat.lt_trans (ih h) (Rule.totalWeight_expand rules d rest)

/-- Every context that is shown, in order. -/
def shownFrom (rules : List Rule) (pending : List Context) : List Context :=
  match _shown : nextFrom rules pending with
  | none => []
  | some (c, after) => c :: shownFrom rules after
termination_by Rule.totalWeight rules pending
decreasing_by exact totalWeight_nextFrom _shown

/-- The walk from a root, before its first step. -/
def start (rules : List Rule) (root : Vertex) : Walk where
  rules := rules
  pending := [.root root]

/-- The next context that is shown, and the walk after it. -/
def next? (w : Walk) : Option (Context × Walk) :=
  (nextFrom w.rules w.pending).map fun (c, after) => (c, { w with pending := after })

/-- Every context that the walk still shows. -/
def toList (w : Walk) : List Context :=
  shownFrom w.rules w.pending

end Walk

/-! ## Listings

`flatten` lists every distinct node under a root, by handle and in the order of first occurrence;
`pathIndex` lists every context of a walk with its path as one text.
-/

/-- The vertices whose handle has not occurred before them nor among `seen`. -/
def distinctVertices (seen : List Handle) : List Vertex → List Vertex
  | [] => []
  | v :: rest =>
      if seen.contains v.handle then distinctVertices seen rest
      else v :: distinctVertices (v.handle :: seen) rest

/-- Every distinct node under a root, the root first. -/
def flatten (root : Vertex) : List Vertex :=
  distinctVertices [] ((Walk.start [] root).toList.map Context.vertex)

/-- The names of the members from the root to a context, with slashes between them. -/
def Context.pathText (c : Context) : String :=
  Text.joined '/' c.propertyPath.reverse

/-- Every node that a walk shows, with its path. -/
def pathIndex (rules : List Rule) (root : Vertex) : List (String × Vertex) :=
  (Walk.start rules root).toList.map fun c => (c.pathText, c.vertex)

end ObjectGraph
