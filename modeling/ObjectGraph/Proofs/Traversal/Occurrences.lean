import Mathlib.Data.List.Nodup
import Mathlib.Data.List.Perm.Basic
import ObjectGraph.Proofs.Node.Reachable
import ObjectGraph.Proofs.Traversal.LevelOrder

/-!
# Paths to the nodes of a graph

A shared node stands in a graph as often as there are paths to it. A path is given by its steps,
each with the name of a member and the position of the next node among those that the value of the
member opens to (`Context.PathTo`); it leads to one context. A walk returns exactly the contexts
that are shown at the end of a path of selected members, and each path gives one context of the walk
if no rule selects a member twice (`Walk.exists_listing`).
-/

namespace ObjectGraph

/-! ## Branch by branch

A walk goes level by level, so what it shows below one context stands scattered among what it shows
below others. Up to order it is the same as going through one branch after the other
(`Walk.shownFrom_perm`): `Rule.visits` lists a context that is shown and everything below it by
recursion on the node, and this is the form in which what a walk shows is compared with the tree
that the nodes were made from.
-/

namespace Rule

variable {rules : List Rule} {c d : Context}

theorem sizeOf_of_mem_expand (h : d ∈ expand rules c) : sizeOf d.node < sizeOf c.node := by
  obtain ⟨name, -, v, hv, rfl⟩ := mem_expand_iff.1 h
  exact Node.sizeOf_under hv

/-- The contexts that are shown at a context and below it, each before those below it. -/
def visits (rules : List Rule) (c : Context) : List Context :=
  [c].filter (shows rules) ++ (expand rules c).attach.flatMap fun ⟨d, _⟩ => visits rules d
termination_by sizeOf c.node
decreasing_by exact sizeOf_of_mem_expand (by assumption)

theorem visits_eq (rules : List Rule) (c : Context) :
    visits rules c = [c].filter (shows rules) ++ (expand rules c).flatMap (visits rules) := by
  rw [visits, List.flatMap_subtype (g := visits rules) fun _ _ => rfl, List.unattach_attach]

/-- Under the default rule everything is shown, and every member is gone into. -/
theorem visits_default (c : Context) :
    visits [] c = c :: (c.node.memberNames .all).flatMap fun name =>
      (c.node.under name).flatMap fun v => visits [] (.child v name c) := by
  rw [visits_eq, expand_eq, List.flatMap_assoc]
  simp only [List.flatMap_map]
  rfl

end Rule

/-- A walk shows what there is in every branch, whatever the order. -/
theorem Walk.shownFrom_perm (rules : List Rule) (pending : List Context) :
    (shownFrom rules pending).Perm (pending.flatMap (Rule.visits rules)) := by
  -- The weight of the queue goes down with each context that is taken from its front.
  induction hw : Rule.totalWeight rules pending using Nat.strongRecOn generalizing pending with
  | ind weight ih =>
      cases pending with
      | nil => rw [shownFrom_nil]; exact .nil
      | cons c rest =>
          have hlt := Rule.totalWeight_expand rules c rest
          have hrest := ih _ (hw ▸ hlt) (rest ++ Rule.expand rules c) rfl
          rw [shownFrom_cons, List.flatMap_cons, Rule.visits_eq, List.append_assoc]
          rw [List.flatMap_append] at hrest
          exact (hrest.trans List.perm_append_comm).append_left _

/-! ## Paths -/

theorem nodup_numbers {α : Type} (xs : List α) (i : Nat) : ((xs.zipIdx i).map Prod.snd).Nodup := by
  rw [List.zipIdx_map_snd]
  exact List.nodup_range'

namespace Node

variable {n : Node} {name : String}

/-- A header field holds no node. -/
theorem under_of_header {header : Header} (h : Header.ofName? name = some header) :
    n.under name = [] := by
  rw [under_of_some (get?_of_header h)]
  cases header with
  | typeName => rfl
  | id => cases hid : n.id <;> rw [Node.header, hid, Value.ofString?, Value.vertices]
  | applicationId =>
      cases hid : n.applicationId <;> rw [Node.header, hid, Value.ofString?, Value.vertices]

theorem under_of_not_mem (h : name ∉ n.memberNames .all) : n.under name = [] := by
  cases hname : Header.ofName? name with
  | some header => exact under_of_header hname
  | none =>
      rw [memberNames, members, Entries.keys_append, List.mem_append, not_or] at h
      have hget : n.get? name = none := by
        rw [get?_of_plain hname, Entries.get?_eq_none_iff.2 h.1, Entries.get?_eq_none_iff.2 h.2,
          Option.or_none]
      exact under_of_none hget

/-- Where members of any kind are open. -/
def AnyMember (n : Node) (name : String) : Prop :=
  name ∈ n.memberNames .all

theorem anyMember_of_mem_under {v : Vertex} (h : v ∈ n.under name) : n.AnyMember name := by
  rw [AnyMember]
  refine Decidable.byContradiction fun hnot => ?_
  rw [under_of_not_mem hnot] at h
  cases h

end Node

/-- One step of a path: the name of a member, and the position of a node in its value. -/
structure Occurrence where
  member : String
  position : Nat

/-- The path from a context to one at or below it, where each step goes through an open member to
one of the nodes that are found there. -/
inductive Context.PathTo (opens : Node → String → Prop) : Context → List Occurrence → Context → Prop
  | here (c : Context) : PathTo opens c [] c
  | step {c d : Context} {name : String} {value : Value} {found : List Vertex} {i : Nat}
      {v : Vertex} {path : List Occurrence} :
      opens c.node name → c.node.get? name = some value → value.Opens found → found[i]? = some v →
        PathTo opens (.child v name c) path d → PathTo opens c (⟨name, i⟩ :: path) d

namespace Context

variable {p q : Node → String → Prop} {c d : Context} {path : List Occurrence}

/-- A path is taken apart at its first step. -/
theorem pathTo_cons_iff {o : Occurrence} : c.PathTo p (o :: path) d ↔
    p c.node o.member ∧ ∃ v, (c.node.under o.member)[o.position]? = some v ∧
      (child v o.member c).PathTo p path d := by
  constructor
  · intro h
    cases h with
    | step hp hget hopens hfound hpath =>
        refine ⟨hp, _, ?_, hpath⟩
        rw [Node.under_of_some hget, ← hopens.eq_vertices]
        exact hfound
  · rintro ⟨hp, v, hv, hpath⟩
    cases hget : c.node.get? o.member with
    | none =>
        rw [Node.under_of_none hget] at hv
        cases hv
    | some value =>
        rw [Node.under_of_some hget] at hv
        exact .step hp hget value.opens_vertices hv hpath

/-- A path stays one where more members are open. -/
theorem PathTo.mono (h : PathTo p c path d)
    (hopens : ∀ n name v, v ∈ n.under name → p n name → q n name) : PathTo q c path d := by
  induction h with
  | here c => exact .here c
  | @step c d name value found i v path hp hget hvalue hfound _ ih =>
      have hunder : v ∈ c.node.under name :=
        Node.mem_under_iff.2 ⟨value, found, hget, hvalue, List.mem_of_getElem? hfound⟩
      exact .step (hopens c.node name v hunder hp) hget hvalue hfound ih

/-- What holds of a node and goes on to the nodes under its members holds at the end of every
path. -/
theorem PathTo.holds {P : Node → Prop} (h : c.PathTo p path d) (hc : P c.node)
    (hstep : ∀ n name v, P n → v ∈ n.under name → P v.node) : P d.node := by
  induction h with
  | here c => exact hc
  | @step c d name value found i v path _ hget hopens hfound _ ih =>
      have hunder : v ∈ c.node.under name :=
        Node.mem_under_iff.2 ⟨value, found, hget, hopens, List.mem_of_getElem? hfound⟩
      exact ih (hstep c.node name v hc hunder)

/-- The contexts of the nodes under a member, each with the step to it. -/
def occurrencesUnder (c : Context) (name : String) : List (Occurrence × Context) :=
  (c.node.under name).zipIdx.map fun (v, i) => (⟨name, i⟩, .child v name c)

/-- An occurrence under a member is given by the position of the vertex. -/
theorem mem_occurrencesUnder_iff {name : String} {o : Occurrence} :
    (o, d) ∈ c.occurrencesUnder name ↔
      o.member = name ∧ ∃ v, (c.node.under name)[o.position]? = some v ∧ d = .child v name c := by
  simp only [occurrencesUnder, List.mem_map, Prod.mk.injEq, Prod.exists,
    List.mem_zipIdx_iff_getElem?]
  constructor
  · rintro ⟨v, i, hv, rfl, rfl⟩
    exact ⟨rfl, v, hv, rfl⟩
  · rintro ⟨rfl, v, hv, rfl⟩
    exact ⟨v, o.position, hv, rfl, rfl⟩

theorem map_snd_occurrencesUnder (c : Context) (name : String) :
    (c.occurrencesUnder name).map Prod.snd = (c.node.under name).map fun v => .child v name c := by
  rw [occurrencesUnder, List.map_map]
  calc ((c.node.under name).zipIdx.map fun x => child x.1 name c)
      = ((c.node.under name).zipIdx.map Prod.fst).map fun v => child v name c := by
        rw [List.map_map]
        rfl
    _ = (c.node.under name).map fun v => child v name c := by rw [List.zipIdx_map_fst]

theorem nodup_occurrencesUnder (c : Context) (name : String) :
    ((c.occurrencesUnder name).map Prod.fst).Nodup := by
  apply List.Nodup.of_map Occurrence.position
  rw [occurrencesUnder, List.map_map, List.map_map]
  exact nodup_numbers (c.node.under name) 0

end Context

namespace Rule

variable {rules : List Rule} {c d : Context} {path : List Occurrence}

/-- Whether the rule that governs a node selects a member. -/
def Selects (rules : List Rule) (n : Node) (name : String) : Prop :=
  name ∈ (active rules n).members n

/-- What `expand` puts at the end of the queue, each with the step to it. -/
def occurrences (rules : List Rule) (c : Context) : List (Occurrence × Context) :=
  ((active rules c.node).members c.node).flatMap c.occurrencesUnder

theorem map_snd_occurrences (rules : List Rule) (c : Context) :
    (occurrences rules c).map Prod.snd = expand rules c := by
  rw [occurrences, expand_eq, List.map_flatMap]
  simp only [Context.map_snd_occurrencesUnder]

theorem mem_expand_of_mem_occurrences {o : Occurrence} (h : (o, d) ∈ occurrences rules c) :
    d ∈ expand rules c := by
  rw [← map_snd_occurrences]
  exact List.mem_map_of_mem h

/-- An occurrence leads through a selected member to the vertex at its position. -/
theorem mem_occurrences_iff {o : Occurrence} :
    (o, d) ∈ occurrences rules c ↔ Selects rules c.node o.member ∧
      ∃ v, (c.node.under o.member)[o.position]? = some v ∧ d = .child v o.member c := by
  simp only [occurrences, List.mem_flatMap, Context.mem_occurrencesUnder_iff]
  constructor
  · rintro ⟨name, hname, rfl, hv⟩
    exact ⟨hname, hv⟩
  · rintro ⟨hname, hv⟩
    exact ⟨o.member, hname, rfl, hv⟩

/-- `visits` with the path to each context. -/
def pathVisits (rules : List Rule) (c : Context) : List (List Occurrence × Context) :=
  ([c].filter (shows rules)).map (fun d => ([], d)) ++
    (occurrences rules c).attach.flatMap fun ⟨x, _⟩ =>
      (pathVisits rules x.2).map fun visit => (x.1 :: visit.1, visit.2)
termination_by sizeOf c.node
decreasing_by exact sizeOf_of_mem_expand (mem_expand_of_mem_occurrences (by assumption))

theorem pathVisits_eq (rules : List Rule) (c : Context) :
    pathVisits rules c = ([c].filter (shows rules)).map (fun d => ([], d)) ++
      (occurrences rules c).flatMap fun x =>
        (pathVisits rules x.2).map fun visit => (x.1 :: visit.1, visit.2) := by
  rw [pathVisits, List.flatMap_subtype fun _ _ => rfl, List.unattach_attach]

/-- Without the paths these are the contexts that are shown. -/
theorem map_snd_pathVisits (rules : List Rule) (c : Context) :
    (pathVisits rules c).map Prod.snd = visits rules c := by
  induction c using pathVisits.induct rules with
  | case1 c ih =>
      have hbelow : ∀ x ∈ occurrences rules c,
          ((pathVisits rules x.2).map fun visit => (x.1 :: visit.1, visit.2)).map Prod.snd =
            visits rules x.2 := by
        intro x hx
        rw [List.map_map]
        exact ih x hx
      rw [pathVisits_eq, visits_eq, List.map_append, List.map_map, List.map_flatMap,
        List.flatMap_congr hbelow, ← map_snd_occurrences, List.flatMap_map]
      congr 1
      exact List.map_id _

/-- The contexts that are shown at the end of a path of selected members. -/
theorem mem_pathVisits_iff :
    (path, d) ∈ pathVisits rules c ↔ c.PathTo (Selects rules) path d ∧ shows rules d = true := by
  -- The path is empty, or it begins with an occurrence under `c`.
  induction path generalizing c with
  | nil =>
      have hhere : ([], d) ∈ pathVisits rules c ↔ d = c ∧ shows rules d = true := by
        rw [pathVisits_eq]
        simp
      rw [hhere]
      constructor
      · rintro ⟨rfl, hshows⟩
        exact ⟨.here d, hshows⟩
      · rintro ⟨⟨⟩, hshows⟩
        exact ⟨rfl, hshows⟩
  | cons o path ih =>
      have hcons : (o :: path, d) ∈ pathVisits rules c ↔
          ∃ e, (o, e) ∈ occurrences rules c ∧ (path, d) ∈ pathVisits rules e := by
        rw [pathVisits_eq]
        simp
      rw [hcons]
      simp only [mem_occurrences_iff, ih, Context.pathTo_cons_iff]
      constructor
      · rintro ⟨_, ⟨hselects, v, hv, rfl⟩, hpath, hshows⟩
        exact ⟨⟨hselects, v, hv, hpath⟩, hshows⟩
      · rintro ⟨⟨hselects, v, hv, hpath⟩, hshows⟩
        exact ⟨_, ⟨hselects, v, hv, rfl⟩, hpath, hshows⟩

/-- No two of the steps from a context are the same, if its rule selects no member twice. -/
theorem nodup_occurrences (h : ((active rules c.node).members c.node).Nodup) :
    ((occurrences rules c).map Prod.fst).Nodup := by
  rw [occurrences, List.map_flatMap, List.nodup_flatMap]
  refine ⟨fun name _ => c.nodup_occurrencesUnder name, h.imp ?_⟩
  intro first second hne o hfirst hsecond
  obtain ⟨⟨_, d⟩, hd, rfl⟩ := List.mem_map.1 hfirst
  obtain ⟨⟨_, e⟩, he, heq⟩ := List.mem_map.1 hsecond
  rw [Context.mem_occurrencesUnder_iff] at hd he
  exact hne (hd.1.symm.trans ((congrArg Occurrence.member heq).symm.trans he.1))

/-- Each path gives one context, if no rule selects a member twice. -/
theorem nodup_pathVisits
    (h : ∀ path d, c.PathTo (Selects rules) path d → ((active rules d.node).members d.node).Nodup) :
    ((pathVisits rules c).map Prod.fst).Nodup := by
  induction c using pathVisits.induct rules with
  | case1 c ih =>
      have hpaths : (pathVisits rules c).map Prod.fst =
          ([c].filter (shows rules)).map (fun _ => []) ++
          (occurrences rules c).flatMap fun x =>
            ((pathVisits rules x.2).map Prod.fst).map (x.1 :: ·) := by
        rw [pathVisits_eq, List.map_append, List.map_map, List.map_flatMap]
        simp only [List.map_map]
        rfl
      rw [hpaths, List.nodup_append, List.nodup_flatMap]
      refine ⟨?_, ⟨?_, ?_⟩, ?_⟩
      · exact (List.filter_sublist.map _).nodup (List.nodup_singleton _)
      · -- A path below the next context is a path from here with one step more.
        rintro ⟨o, d⟩ hx
        obtain ⟨hselects, v, hv, rfl⟩ := mem_occurrences_iff.1 hx
        have hbelow : ∀ path e, (Context.child v o.member c).PathTo (Selects rules) path e →
            ((active rules e.node).members e.node).Nodup :=
          fun path e hpath => h (o :: path) e (Context.pathTo_cons_iff.2 ⟨hselects, v, hv, hpath⟩)
        exact (ih _ hx hbelow).map fun _ _ heq => (List.cons.inj heq).2
      · -- Below different contexts the paths differ in their first step.
        refine (List.pairwise_map.1 (nodup_occurrences (h [] c (.here c)))).imp ?_
        intro x y hne path hx hy
        obtain ⟨_, -, rfl⟩ := List.mem_map.1 hx
        obtain ⟨_, -, heq⟩ := List.mem_map.1 hy
        exact hne (List.cons.inj heq).1.symm
      · -- The empty path is not one that goes through a member.
        intro path hhere other hbelow heq
        obtain ⟨_, -, rfl⟩ := List.mem_map.1 hhere
        obtain ⟨x, -, hx⟩ := List.mem_flatMap.1 hbelow
        obtain ⟨_, -, rfl⟩ := List.mem_map.1 hx
        cases heq

end Rule

/-- Elements whose images are given in some order can be put into that order. -/
theorem exists_map_eq_of_perm {α β : Type} {f : α → β} {xs : List α} {ys : List β}
    (h : ys.Perm (xs.map f)) : ∃ zs : List α, ys = zs.map f ∧ zs.Perm xs :=
  (iff_of_eq (congrFun₂ (List.eq_map_comp_perm f) ys xs)).2 h

/-- What a walk returns, path by path. -/
theorem Walk.exists_listing (rules : List Rule) (root : Vertex) :
    ∃ listing : List (List Occurrence × Context),
      (start rules root).toList = listing.map Prod.snd ∧
      (∀ path c, (path, c) ∈ listing ↔
        (Context.root root).PathTo (Rule.Selects rules) path c ∧ Rule.shows rules c = true) ∧
      ((∀ path c, (Context.root root).PathTo (Rule.Selects rules) path c →
          ((Rule.active rules c.node).members c.node).Nodup) → (listing.map Prod.fst).Nodup) := by
  have hvisits := shownFrom_perm rules [.root root]
  rw [List.flatMap_singleton, ← Rule.map_snd_pathVisits] at hvisits
  obtain ⟨listing, hlisting, hperm⟩ := exists_map_eq_of_perm hvisits
  refine ⟨listing, hlisting, ?_, ?_⟩
  · intro path c
    rw [hperm.mem_iff, Rule.mem_pathVisits_iff]
  · intro hmembers
    rw [(hperm.map Prod.fst).nodup_iff]
    exact Rule.nodup_pathVisits hmembers

end ObjectGraph
