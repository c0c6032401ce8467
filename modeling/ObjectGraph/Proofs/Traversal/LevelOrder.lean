import ObjectGraph.Traversal.Walk

/-!
# Walks in level order

The levels of a graph under a list of rules, stated without a queue: the first level is the root,
and the next one is made by going through a level in order and putting down, for every context, the
nodes that the members of its active rule open to (`Levels`). A walk returns the contexts of all
levels, one level after the other and without the hidden ones, and then ends
(`Walk.returns_levels`). The paths of these contexts are exactly the sequences of member names that
can be walked from the root (`Walked`), each as long as the number of its level.

The invariant of the queue is `Walk.shownFrom_append`: contexts at the front, the later part of one
level, can be taken out together if those below them, the first part of the next level, are put at
the end.
-/

namespace ObjectGraph

mutual

/-- The nodes that a value opens to: a node is itself, lists and maps are opened in order at every
depth, and a primitive holds no node. -/
inductive Value.Opens : Value → List Vertex → Prop
  | node (handle : Handle) (content : Node) :
      Value.Opens (.node handle content) [⟨handle, content⟩]
  | list {items : List Value} {found : List Vertex} :
      ListOpens items found → Value.Opens (.list items) found
  | map {entries : List (String × Value)} {found : List Vertex} :
      ListOpens (Entries.values entries) found → Value.Opens (.map entries) found
  | primitive {v : Value} : v.isPrimitive = true → Value.Opens v []

/-- The nodes that the values of a list open to, one value after the other. -/
inductive ListOpens : List Value → List Vertex → Prop
  | nil : ListOpens [] []
  | cons {v : Value} {rest : List Value} {found others : List Vertex} :
      Value.Opens v found → ListOpens rest others → ListOpens (v :: rest) (found ++ others)

end

/-- A map opens to what the list of its values opens to. -/
theorem listVertices_values (entries : List (String × Value)) :
    listVertices (Entries.values entries) = entryVertices entries := by
  induction entries with
  | nil => rfl
  | cons entry rest ih =>
      simp only [Entries.values, List.map_cons, listVertices, entryVertices] at ih ⊢
      rw [ih]

theorem mem_listVertices_iff {items : List Value} {v : Vertex} :
    v ∈ listVertices items ↔ ∃ item ∈ items, v ∈ item.vertices := by
  induction items with
  | nil => simp [listVertices]
  | cons item rest ih => simp [listVertices, ih]

mutual

theorem Value.opens_vertices : ∀ v : Value, v.Opens v.vertices
  | .node handle content => .node handle content
  | .list items => .list (listOpens_listVertices items)
  | .map entries => .map (listOpens_entryVertices entries)
  | .null | .bool _ | .int _ | .float _ | .string _ => .primitive rfl

theorem listOpens_listVertices : ∀ items : List Value, ListOpens items (listVertices items)
  | [] => .nil
  | item :: rest => .cons item.opens_vertices (listOpens_listVertices rest)

theorem listOpens_entryVertices : ∀ entries : List (String × Value),
    ListOpens (Entries.values entries) (entryVertices entries)
  | [] => .nil
  | (_, value) :: rest => .cons value.opens_vertices (listOpens_entryVertices rest)

end

mutual

/-- A value opens to one list of nodes only. -/
theorem Value.Opens.eq_vertices : ∀ {v : Value} {found : List Vertex}, v.Opens found →
    found = v.vertices
  -- The recursion is on the derivation; its last case excludes the values that can be opened.
  | _, _, .node handle content => by rw [Value.vertices]
  | _, _, .list h => by rw [Value.vertices, h.eq_listVertices]
  | _, _, .map h => by rw [Value.vertices, h.eq_listVertices, listVertices_values]
  | v, _, .primitive h => by
      cases v with
      | node | list | map => cases h
      | null | bool | int | float | string => rw [Value.vertices]

theorem ListOpens.eq_listVertices : ∀ {items : List Value} {found : List Vertex},
    ListOpens items found → found = listVertices items
  | _, _, .nil => by rw [listVertices]
  | _, _, .cons h hrest => by rw [listVertices, h.eq_vertices, hrest.eq_listVertices]

end

namespace Rule

/-- The rule that governs a node: the first of the list that applies, or the default rule. -/
inductive Governs (n : Node) : List Rule → Rule → Prop
  | default : Governs n [] .default
  | first {r : Rule} {rest : List Rule} : r.applies n = true → Governs n (r :: rest) r
  | later {s r : Rule} {rest : List Rule} :
      s.applies n = false → Governs n rest r → Governs n (s :: rest) r

/-- The rule that governs a node is its active rule. -/
theorem governs_iff {n : Node} {rules : List Rule} {r : Rule} :
    Governs n rules r ↔ r = active rules n := by
  induction rules with
  | nil =>
      constructor
      · intro h
        cases h
        rfl
      · rintro rfl
        exact .default
  | cons s rest ih =>
      cases hs : s.applies n with
      | true =>
          have hactive : active (s :: rest) n = s := by simp [active, hs]
          rw [hactive]
          constructor
          · intro h
            cases h with
            | first => rfl
            | later hs' => rw [hs] at hs'; cases hs'
          · rintro rfl
            exact .first hs
      | false =>
          have hactive : active (s :: rest) n = active rest n := by simp [active, hs]
          rw [hactive, ← ih]
          constructor
          · intro h
            cases h with
            | first hs' => rw [hs] at hs'; cases hs'
            | later _ h => exact h
          · exact .later hs

/-- Whether the rules show the node of a context. -/
def shows (rules : List Rule) (c : Context) : Bool :=
  (active rules c.node).yields

end Rule

/-! ## Levels -/

/-- The contexts below `c` under the members of those names, in order; a name without a member is
passed over. -/
inductive MembersOpen (c : Context) : List String → List Context → Prop
  | nil : MembersOpen c [] []
  | missing {name : String} {names : List String} {below : List Context} :
      c.node.get? name = none → MembersOpen c names below → MembersOpen c (name :: names) below
  | present {name : String} {names : List String} {value : Value} {found : List Vertex}
      {below : List Context} :
      c.node.get? name = some value → value.Opens found → MembersOpen c names below →
        MembersOpen c (name :: names) (found.map (fun v => .child v name c) ++ below)

/-- The level below a level. -/
inductive NextLevel (rules : List Rule) : List Context → List Context → Prop
  | nil : NextLevel rules [] []
  | cons {c : Context} {r : Rule} {level below next : List Context} :
      Rule.Governs c.node rules r → MembersOpen c (r.members c.node) below →
        NextLevel rules level next → NextLevel rules (c :: level) (below ++ next)

/-- A level and all levels below it, down to the last one that is not empty. -/
inductive Levels (rules : List Rule) : List Context → List (List Context) → Prop
  | done : Levels rules [] []
  | level {level next : List Context} {levels : List (List Context)} :
      level ≠ [] → NextLevel rules level next → Levels rules next levels →
        Levels rules level (level :: levels)

theorem Node.under_of_none {n : Node} {name : String} (h : n.get? name = none) :
    n.under name = [] := by
  rw [under, h]

theorem Node.under_of_some {n : Node} {name : String} {value : Value}
    (h : n.get? name = some value) : n.under name = value.vertices := by
  rw [under, h]

/-- Members open to the vertices under them, in the order of the names. -/
theorem MembersOpen.eq_flatMap {c : Context} {names : List String} {below : List Context}
    (h : MembersOpen c names below) :
    below = names.flatMap fun name => (c.node.under name).map fun v => .child v name c := by
  induction h with
  | nil => rfl
  | missing hget _ ih =>
      rw [List.flatMap_cons, Node.under_of_none hget, ← ih]
      rfl
  | present hget hopens _ ih =>
      rw [List.flatMap_cons, Node.under_of_some hget, ← hopens.eq_vertices, ← ih]

theorem membersOpen_flatMap (c : Context) (names : List String) :
    MembersOpen c names
      (names.flatMap fun name => (c.node.under name).map fun v => .child v name c) := by
  induction names with
  | nil => exact .nil
  | cons name names ih =>
      rw [List.flatMap_cons]
      cases hget : c.node.get? name with
      | none =>
          rw [Node.under_of_none hget]
          exact .missing hget ih
      | some value =>
          rw [Node.under_of_some hget]
          exact .present hget value.opens_vertices ih

/-- What `expand` puts at the end of the queue, one member after the other. -/
theorem Rule.expand_eq (rules : List Rule) (c : Context) :
    expand rules c = ((active rules c.node).members c.node).flatMap fun name =>
      (c.node.under name).map fun v => .child v name c := by
  simp only [expand, steps, List.map_flatMap, List.map_map]
  rfl

theorem Rule.mem_expand_iff {rules : List Rule} {c d : Context} :
    d ∈ expand rules c ↔ ∃ name ∈ (active rules c.node).members c.node,
      ∃ v ∈ c.node.under name, d = .child v name c := by
  simp only [expand_eq, List.mem_flatMap, List.mem_map, eq_comm]

/-- The next level is what the contexts of the level expand to, in their order. -/
theorem nextLevel_iff {rules : List Rule} {level next : List Context} :
    NextLevel rules level next ↔ next = level.flatMap (Rule.expand rules) := by
  constructor
  · intro h
    induction h with
    | nil => rfl
    | cons hr hbelow _ ih =>
        rw [List.flatMap_cons, Rule.expand_eq, ← Rule.governs_iff.1 hr, ← hbelow.eq_flatMap, ← ih]
  · rintro rfl
    induction level with
    | nil => exact .nil
    | cons c level ih =>
        rw [List.flatMap_cons, Rule.expand_eq]
        exact .cons (Rule.governs_iff.2 rfl) (membersOpen_flatMap c _) ih

/-- The levels below a level are determined by it. -/
theorem Levels.unique {rules : List Rule} {level : List Context}
    {levels others : List (List Context)} (h : Levels rules level levels)
    (h' : Levels rules level others) : levels = others := by
  induction h generalizing others with
  | done =>
      cases h' with
      | done => rfl
      | level hne => exact absurd rfl hne
  | level hne hnext _ ih =>
      cases h' with
      | done => exact absurd rfl hne
      | level _ hnext' hrest =>
          rw [nextLevel_iff.1 hnext', ← nextLevel_iff.1 hnext] at hrest
          rw [ih hrest]

/-- Each level weighs as much as the next one and one for every context in it. -/
theorem Rule.totalWeight_flatMap_expand (rules : List Rule) (level : List Context) :
    totalWeight rules (level.flatMap (expand rules)) + level.length = totalWeight rules level := by
  induction level with
  | nil => rfl
  | cons c level ih =>
      have h := totalWeight_expand_succ rules c
      rw [List.flatMap_cons, totalWeight_append, totalWeight, List.length_cons]
      omega

/-- Below every level there are finitely many levels. -/
theorem exists_levels (rules : List Rule) (level : List Context) :
    ∃ levels, Levels rules level levels := by
  -- The weight of a level goes down by the number of its contexts, whatever the rules select.
  induction hw : Rule.totalWeight rules level using Nat.strongRecOn generalizing level with
  | ind weight ih =>
      by_cases hne : level = []
      · subst hne
        exact ⟨[], .done⟩
      · have hlt := Rule.totalWeight_flatMap_expand rules level
        have hpos := List.length_pos_iff.2 hne
        obtain ⟨levels, h⟩ := ih _ (by omega) (level.flatMap (Rule.expand rules)) rfl
        exact ⟨level :: levels, .level hne (nextLevel_iff.2 rfl) h⟩

/-! ## The queue -/

namespace Walk

/-- Nothing is shown where no shown context is left. -/
theorem shownFrom_of_none {rules : List Rule} {pending : List Context}
    (h : nextFrom rules pending = none) : shownFrom rules pending = [] := by
  rw [shownFrom]
  split
  · rfl
  · rename_i hsome
    rw [h] at hsome
    cases hsome

/-- The next shown context comes first. -/
theorem shownFrom_of_some {rules : List Rule} {pending after : List Context} {c : Context}
    (h : nextFrom rules pending = some (c, after)) :
    shownFrom rules pending = c :: shownFrom rules after := by
  rw [shownFrom]
  split
  · rename_i hnone
    rw [h] at hnone
    cases hnone
  · rename_i hsome
    rw [h] at hsome
    cases hsome
    rfl

/-- One step of the queue: the first context is shown unless it is hidden, and the contexts below it
go to the end. -/
theorem shownFrom_cons (rules : List Rule) (c : Context) (rest : List Context) :
    shownFrom rules (c :: rest) =
      [c].filter (Rule.shows rules) ++ shownFrom rules (rest ++ Rule.expand rules c) := by
  cases hc : (Rule.active rules c.node).yields with
  | true =>
      have hnext : nextFrom rules (c :: rest) = some (c, rest ++ Rule.expand rules c) := by
        rw [nextFrom, if_pos hc]
      rw [shownFrom_of_some hnext]
      simp [Rule.shows, hc]
  | false =>
      -- A hidden context is passed over within the same call, so both queues give the same answer.
      have hnext : nextFrom rules (c :: rest) = nextFrom rules (rest ++ Rule.expand rules c) := by
        rw [nextFrom, hc, if_neg Bool.false_ne_true]
      have hshown : shownFrom rules (c :: rest) =
          shownFrom rules (rest ++ Rule.expand rules c) := by
        cases hfrom : nextFrom rules (rest ++ Rule.expand rules c) with
        | none => rw [shownFrom_of_none hfrom, shownFrom_of_none (hnext.trans hfrom)]
        | some next => rw [shownFrom_of_some hfrom, shownFrom_of_some (hnext.trans hfrom)]
      rw [hshown]
      simp [Rule.shows, hc]

theorem shownFrom_nil (rules : List Rule) : shownFrom rules [] = [] := by
  apply shownFrom_of_none
  rw [nextFrom]

/-- The contexts at the front of the queue come out in order while those below them gather at the
end. -/
theorem shownFrom_append (rules : List Rule) (front back : List Context) :
    shownFrom rules (front ++ back) = front.filter (Rule.shows rules) ++
      shownFrom rules (back ++ front.flatMap (Rule.expand rules)) := by
  induction front generalizing back with
  | nil => simp
  | cons c front ih =>
      -- What the first context puts down stands behind `back`, in front of what the others put
      -- down.
      have hqueue : front ++ back ++ Rule.expand rules c = front ++ (back ++ Rule.expand rules c) :=
        List.append_assoc ..
      rw [List.cons_append, shownFrom_cons, hqueue, ih, ← List.append_assoc, ← List.filter_append,
        List.flatMap_cons, List.append_assoc]
      rfl

/-- With nothing behind it, a whole level gives way to the next one. -/
theorem shownFrom_level (rules : List Rule) (level : List Context) :
    shownFrom rules level =
      level.filter (Rule.shows rules) ++ shownFrom rules (level.flatMap (Rule.expand rules)) := by
  have happend := shownFrom_append rules level []
  rwa [List.append_nil, List.nil_append] at happend

/-- A queue that holds one level shows all levels from there on, one after the other. -/
theorem shownFrom_levels {rules : List Rule} {level : List Context} {levels : List (List Context)}
    (h : Levels rules level levels) :
    shownFrom rules level = levels.flatten.filter (Rule.shows rules) := by
  induction h with
  | done => exact shownFrom_nil rules
  | @level level next levels _ hnext _ ih =>
      rw [shownFrom_level, ← nextLevel_iff.1 hnext, ih, List.flatten_cons, List.filter_append]

/-- Calls of `next?` one after the other return these contexts and then nothing. -/
inductive Returns : Walk → List Context → Prop
  | ends {w : Walk} : w.next? = none → Returns w []
  | step {w after : Walk} {c : Context} {rest : List Context} :
      w.next? = some (c, after) → Returns after rest → Returns w (c :: rest)

theorem returns_shownFrom (rules : List Rule) (pending : List Context) :
    Returns ⟨rules, pending⟩ (shownFrom rules pending) := by
  fun_induction shownFrom rules pending with
  | case1 pending hnone => exact .ends (by simp [next?, hnone])
  | case2 pending c after hsome ih => exact .step (by simp [next?, hsome]) ih

/-- Repeated calls of `next?` return what the walk still shows, and they come to an end. -/
theorem returns_iff {w : Walk} {cs : List Context} : w.Returns cs ↔ cs = w.toList := by
  constructor
  · intro h
    induction h with
    | ends hnone =>
        simp only [next?, Option.map_eq_none_iff] at hnone
        rw [toList, shownFrom_of_none hnone]
    | step hsome _ ih =>
        simp only [next?, Option.map_eq_some_iff] at hsome
        obtain ⟨⟨c, after⟩, hfrom, heq⟩ := hsome
        cases heq
        rw [toList, shownFrom_of_some hfrom, ih]
        rfl
  · rintro rfl
    exact returns_shownFrom w.rules w.pending

end Walk

/-! ## Paths -/

/-- A node that is reached from the root through members of those names, each selected by the rule
that governs the node which has it. -/
inductive Walked (rules : List Rule) (root : Vertex) : List String → Vertex → Prop
  | root : Walked rules root [] root
  | step {names : List String} {v w : Vertex} {r : Rule} {name : String} {value : Value}
      {found : List Vertex} :
      Walked rules root names v → Rule.Governs v.node rules r → name ∈ r.members v.node →
        v.node.get? name = some value → value.Opens found → w ∈ found →
          Walked rules root (names ++ [name]) w

/-- The path of a context, read from the root, leads to its node. -/
def Context.IsWalked (rules : List Rule) (root : Vertex) (c : Context) : Prop :=
  Walked rules root c.propertyPath.reverse c.vertex

/-- A vertex is under a member if the value of the member opens to it. -/
theorem Node.mem_under_iff {n : Node} {name : String} {v : Vertex} :
    v ∈ n.under name ↔ ∃ value found, n.get? name = some value ∧ value.Opens found ∧ v ∈ found := by
  constructor
  · intro h
    cases hget : n.get? name with
    | none =>
        rw [under_of_none hget] at h
        cases h
    | some value =>
        rw [under_of_some hget] at h
        exact ⟨value, value.vertices, rfl, value.opens_vertices, h⟩
  · rintro ⟨value, found, hget, hopens, hv⟩
    rw [under_of_some hget, ← hopens.eq_vertices]
    exact hv

/-- Walking on from a context goes to the contexts below it. -/
theorem Context.IsWalked.child {rules : List Rule} {root : Vertex} {c d : Context}
    (h : c.IsWalked rules root) (hd : d ∈ Rule.expand rules c) : d.IsWalked rules root := by
  obtain ⟨name, hname, v, hv, rfl⟩ := Rule.mem_expand_iff.1 hd
  obtain ⟨value, found, hget, hopens, hmem⟩ := Node.mem_under_iff.1 hv
  rw [IsWalked, propertyPath, List.reverse_cons]
  exact .step h (Rule.governs_iff.2 rfl) hname hget hopens hmem

theorem Rule.depth_of_mem_expand {rules : List Rule} {c d : Context} (h : d ∈ expand rules c) :
    d.depth = c.depth + 1 := by
  obtain ⟨name, -, v, -, rfl⟩ := mem_expand_iff.1 h
  rfl

/-- What holds of the contexts of a level, and goes from a context to those below it, holds of the
contexts of each level below. -/
theorem Levels.forall_mem {rules : List Rule} (p : Nat → Context → Prop)
    (hstep : ∀ depth c, p depth c → ∀ d ∈ Rule.expand rules c, p (depth + 1) d)
    {level : List Context} {levels : List (List Context)} (h : Levels rules level levels)
    (first : Nat) (hfirst : ∀ c ∈ level, p first c) :
    ∀ depth below, levels[depth]? = some below → ∀ c ∈ below, p (first + depth) c := by
  induction h generalizing first with
  | done =>
      intro depth below hbelow
      cases hbelow
  | @level level next levels _ hnext _ ih =>
      intro depth below hbelow c hc
      cases depth with
      | zero =>
          cases hbelow
          exact hfirst c hc
      | succ depth =>
          have hall : ∀ d ∈ next, p (first + 1) d := by
            intro d hd
            rw [nextLevel_iff.1 hnext, List.mem_flatMap] at hd
            obtain ⟨c, hc, hd⟩ := hd
            exact hstep first c (hfirst c hc) d hd
          have hp := ih (first + 1) hall depth below hbelow c hc
          rwa [Nat.add_right_comm] at hp

/-- What holds of the root, and goes from a context to those below it, holds of every context that a
walk shows. -/
theorem Walk.forall_mem_toList {rules : List Rule} {root : Vertex} (p : Context → Prop)
    (hroot : p (.root root)) (hstep : ∀ c, p c → ∀ d ∈ Rule.expand rules c, p d) :
    ∀ c ∈ (start rules root).toList, p c := by
  obtain ⟨levels, hlevels⟩ := exists_levels rules [.root root]
  intro c hc
  have hshown : (start rules root).toList = levels.flatten.filter (Rule.shows rules) :=
    shownFrom_levels hlevels
  rw [hshown] at hc
  obtain ⟨level, hlevel, hmem⟩ := List.mem_flatten.1 (List.mem_filter.1 hc).1
  obtain ⟨depth, hdepth⟩ := List.mem_iff_getElem?.1 hlevel
  exact hlevels.forall_mem (fun _ c => p c) (fun _ c hc d hd => hstep c hc d hd) 0
    (fun c hc => by rw [List.mem_singleton.1 hc]; exact hroot) depth level hdepth c hmem

/-- The contexts below a context of one of the levels are in the levels. -/
theorem Levels.mem_of_mem_expand {rules : List Rule} {level : List Context}
    {levels : List (List Context)} (h : Levels rules level levels) :
    (∀ c ∈ level, c ∈ levels.flatten) ∧
      ∀ c ∈ levels.flatten, ∀ d ∈ Rule.expand rules c, d ∈ levels.flatten := by
  induction h with
  | done =>
      constructor
      · intro c hc
        cases hc
      · intro c hc
        cases hc
  | @level level next levels _ hnext _ ih =>
      obtain ⟨hnextMem, hclosed⟩ := ih
      simp only [List.flatten_cons, List.mem_append]
      refine ⟨fun c hc => Or.inl hc, ?_⟩
      rintro c (hc | hc) d hd
      · right
        apply hnextMem
        rw [nextLevel_iff.1 hnext]
        exact List.mem_flatMap.2 ⟨c, hc, hd⟩
      · exact Or.inr (hclosed c hc d hd)

/-- Every path from the root is the path of a context in the levels. -/
theorem Levels.exists_of_walked {rules : List Rule} {root : Vertex} {levels : List (List Context)}
    (h : Levels rules [.root root] levels) {names : List String} {v : Vertex}
    (hw : Walked rules root names v) :
    ∃ c ∈ levels.flatten, c.propertyPath.reverse = names ∧ c.vertex = v := by
  obtain ⟨hlevel, hclosed⟩ := h.mem_of_mem_expand
  -- The induction is on the walked path: its last step leads from a context to one below it.
  induction hw with
  | root => exact ⟨.root root, hlevel _ List.mem_cons_self, rfl, rfl⟩
  | @step names v w r name value found _ hr hname hget hopens hmem ih =>
      obtain ⟨c, hc, hpath, rfl⟩ := ih
      have hunder : w ∈ c.node.under name := Node.mem_under_iff.2 ⟨value, found, hget, hopens, hmem⟩
      rw [Rule.governs_iff.1 hr] at hname
      have hchild := Rule.mem_expand_iff.2 ⟨name, hname, w, hunder, rfl⟩
      refine ⟨.child w name c, hclosed c hc _ hchild, ?_, rfl⟩
      rw [Context.propertyPath, List.reverse_cons, hpath]

/-- From every root and under all rules there is exactly one sequence of levels; the walk returns
the contexts that are shown, one level after the other, and ends. The contexts of a level have its
number as depth and length of path, and the paths of all levels are exactly those that can be walked
from the root. -/
theorem Walk.returns_levels (rules : List Rule) (root : Vertex) :
    ∃ levels, Levels rules [.root root] levels ∧
      (∀ others, Levels rules [.root root] others → others = levels) ∧
      (Walk.start rules root).Returns (levels.flatten.filter (Rule.shows rules)) ∧
      (∀ c r, Rule.Governs c.node rules r → Rule.shows rules c = r.yields) ∧
      (∀ (depth : Nat) (level : List Context), levels[depth]? = some level →
        ∀ c ∈ level, c.depth = depth ∧ c.propertyPath.length = depth) ∧
      (∀ names v, Walked rules root names v ↔
        ∃ c ∈ levels.flatten, c.propertyPath.reverse = names ∧ c.vertex = v) := by
  obtain ⟨levels, hlevels⟩ := exists_levels rules [.root root]
  refine ⟨levels, hlevels, fun others h => h.unique hlevels, ?_, ?_, ?_, ?_⟩
  · rw [Walk.returns_iff]
    exact (Walk.shownFrom_levels hlevels).symm
  · intro c r hr
    rw [Rule.governs_iff.1 hr, Rule.shows]
  · intro depth level hlevel c hc
    have hdepth := hlevels.forall_mem (fun depth c => c.depth = depth)
      (fun depth c hc d hd => by rw [Rule.depth_of_mem_expand hd, hc]) 0
      (fun c hc => by rw [List.mem_singleton.1 hc]; rfl) depth level hlevel c hc
    rw [Nat.zero_add] at hdepth
    exact ⟨hdepth, by rw [Context.length_propertyPath, hdepth]⟩
  · intro names v
    constructor
    · exact hlevels.exists_of_walked
    · -- The other way round, the path of every context can be walked, level by level.
      rintro ⟨c, hc, rfl, rfl⟩
      obtain ⟨level, hlevel, hmem⟩ := List.mem_flatten.1 hc
      obtain ⟨depth, hdepth⟩ := List.mem_iff_getElem?.1 hlevel
      exact hlevels.forall_mem (fun _ c => c.IsWalked rules root)
        (fun depth c hc d hd => hc.child hd) 0
        (fun c hc => by rw [List.mem_singleton.1 hc]; exact .root) depth level hdepth c hmem

end ObjectGraph
