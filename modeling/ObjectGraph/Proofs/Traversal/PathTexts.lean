import ObjectGraph.Proofs.Name.Validity
import ObjectGraph.Proofs.Text
import ObjectGraph.Proofs.Traversal.Occurrences
import ObjectGraph.Traversal.Walk

/-!
# Paths as texts

The text of a path has slashes between the names of the members. A name that is accepted at run time
has no slash and is not empty, so in a graph where the declared names are of that kind as well, the
text is cut back into the names that the walk went through (`pathIndex_unambiguous`), whatever the
rules select.
-/

namespace ObjectGraph

/-- Every member has a name that is accepted at run time. -/
theorem Node.validate_of_anyMember {n : Node} {name : String} (hn : n.WellFormed)
    (hdeclared : ∀ name ∈ Entries.keys n.declared, Name.validate name = .ok ())
    (hname : n.AnyMember name) : Name.validate name = .ok () := by
  rw [AnyMember, memberNames, members, Entries.keys_append, List.mem_append] at hname
  rcases hname with hname | hname
  · exact hdeclared name hname
  · exact hn.valid name hname

namespace Context

variable {opens : Node → String → Prop} {c d : Context} {path : List Occurrence}

/-- The members of a path come after those that led to its start. -/
theorem PathTo.reverse_propertyPath (h : c.PathTo opens path d) :
    d.propertyPath.reverse = c.propertyPath.reverse ++ path.map Occurrence.member := by
  induction h with
  | here c => rw [List.map_nil, List.append_nil]
  | step _ _ _ _ _ ih =>
      rw [ih, propertyPath, List.reverse_cons, List.append_assoc, List.map_cons,
        List.singleton_append]

/-- What holds of the names of all members in a graph holds of the names on a path. -/
theorem PathTo.forall_member {P : String → Prop} (h : c.PathTo opens path d)
    (hnames : ∀ path e, c.PathTo opens path e → ∀ name, opens e.node name → P name) :
    ∀ o ∈ path, P o.member := by
  induction path generalizing c with
  | nil => exact fun _ ho => absurd ho List.not_mem_nil
  | cons first path ih =>
      obtain ⟨hopen, v, hv, hpath⟩ := pathTo_cons_iff.1 h
      intro o ho
      rcases List.mem_cons.1 ho with rfl | ho
      · exact hnames [] c (.here c) o.member hopen
      · refine ih hpath (fun path e hbelow => ?_) o ho
        exact hnames (first :: path) e (pathTo_cons_iff.2 ⟨hopen, v, hv, hbelow⟩)

section Texts

variable {root : Vertex} (h : (Context.root root).PathTo opens path c)
include h

theorem PathTo.pathText_eq : c.pathText = Text.joined '/' (path.map Occurrence.member) := by
  rw [pathText, h.reverse_propertyPath]
  rfl

/-- Only the root has the empty path. -/
theorem PathTo.eq_nil_iff : path = [] ↔ c = .root root := by
  have hpath := h.reverse_propertyPath
  constructor
  · rintro rfl
    cases h
    rfl
  · rintro rfl
    exact List.map_eq_nil_iff.1 hpath.symm

variable (hvalid : ∀ o ∈ path, Name.validate o.member = .ok ())
include hvalid

/-- Only the root has the empty text. -/
theorem PathTo.pathText_eq_empty_iff : c.pathText = "" ↔ path = [] := by
  rw [h.pathText_eq, Text.joined_eq_empty_iff, List.map_eq_nil_iff]
  · intro part hpart
    obtain ⟨o, ho, rfl⟩ := List.mem_map.1 hpart
    exact (Name.validate_eq_ok_iff.1 (hvalid o ho)).1
  · intro part hpart
    obtain ⟨o, ho, rfl⟩ := List.mem_map.1 hpart
    exact (Name.validate_eq_ok_iff.1 (hvalid o ho)).2.2.2

/-- Cutting the text gives back the names. -/
theorem PathTo.segments_pathText (htext : c.pathText ≠ "") :
    Text.segments '/' c.pathText = path.map Occurrence.member := by
  have hne : path.map Occurrence.member ≠ [] :=
    mt List.map_eq_nil_iff.1 (mt (h.pathText_eq_empty_iff hvalid).2 htext)
  rw [h.pathText_eq]
  refine Text.segments_joined hne fun part hpart => ?_
  obtain ⟨o, ho, rfl⟩ := List.mem_map.1 hpart
  exact (Name.validate_eq_ok_iff.1 (hvalid o ho)).2.2.2

end Texts

end Context

/-- In a graph of nodes as the operations make them, with declared names that are accepted at run
time, there is one entry for each context that the walk returns, in the same order. Its text is cut
into the names of the members that the walk went through, so no other names lead to the same text,
and only that of the root is empty. -/
theorem pathIndex_unambiguous (rules : List Rule) (root : Vertex)
    (hgraph : ∀ path c, (Context.root root).PathTo Node.AnyMember path c →
      c.node.Reachable ∧ ∀ name ∈ Entries.keys c.node.declared, Name.validate name = .ok ()) :
    ∃ listing : List (List Occurrence × Context),
      (Walk.start rules root).Returns (listing.map Prod.snd) ∧
      pathIndex rules root = listing.map (fun (_, c) => (c.pathText, c.vertex)) ∧
      (∀ path c, (path, c) ∈ listing → (Context.root root).PathTo (Rule.Selects rules) path c ∧
        (c.pathText ≠ "" → Text.segments '/' c.pathText = path.map Occurrence.member) ∧
        (c.pathText = "" ↔ c = .root root)) ∧
      ∀ path c path' c', (path, c) ∈ listing → (path', c') ∈ listing → c.pathText = c'.pathText →
        path.map Occurrence.member = path'.map Occurrence.member := by
  have hnames : ∀ path c, (Context.root root).PathTo Node.AnyMember path c →
      ∀ name, c.node.AnyMember name → Name.validate name = .ok () := by
    intro path c hpath name hname
    obtain ⟨hreachable, hdeclared⟩ := hgraph path c hpath
    exact Node.validate_of_anyMember hreachable.wellFormed hdeclared hname
  obtain ⟨listing, hlisting, hmem, -⟩ := Walk.exists_listing rules root
  have hpath : ∀ path c, (path, c) ∈ listing →
      (Context.root root).PathTo (Rule.Selects rules) path c :=
    fun path c h => ((hmem path c).1 h).1
  have hvalid : ∀ path c, (path, c) ∈ listing → ∀ o ∈ path, Name.validate o.member = .ok () := by
    -- A selector may name what it wants; where a node is found, the name is that of a member.
    intro path c h
    have hany : (Context.root root).PathTo Node.AnyMember path c :=
      (hpath path c h).mono fun n name v hv _ => Node.anyMember_of_mem_under hv
    exact hany.forall_member hnames
  have hempty : ∀ path c, (path, c) ∈ listing → (c.pathText = "" ↔ path = []) :=
    fun path c h => (hpath path c h).pathText_eq_empty_iff (hvalid path c h)
  have hcut : ∀ path c, (path, c) ∈ listing → c.pathText ≠ "" →
      Text.segments '/' c.pathText = path.map Occurrence.member :=
    fun path c h => (hpath path c h).segments_pathText (hvalid path c h)
  refine ⟨listing, Walk.returns_iff.2 hlisting.symm, ?_, ?_, ?_⟩
  · rw [pathIndex, hlisting, List.map_map]
    rfl
  · intro path c h
    exact ⟨hpath path c h, hcut path c h, (hempty path c h).trans (hpath path c h).eq_nil_iff⟩
  · intro path c path' c' h h' htext
    -- An empty text has no names, but it is cut into one empty segment.
    by_cases htext' : c.pathText = ""
    · rw [(hempty path c h).1 htext', (hempty path' c' h').1 (htext ▸ htext')]
    · rw [← hcut path c h htext', ← hcut path' c' h' (htext ▸ htext'), htext]

namespace Node

/-- A flight of stairs with a rail. -/
def sampleFlight : Node :=
  { new "Kit.Flight" with dynamic := [("rail", .node ⟨[0, 2]⟩ (new "Kit.Rail"))] }

/-- A hall with two flights under a declared member. -/
def sampleHall : Node :=
  { new "Kit.Hall" with
    declared := [("@flights", .list [.node ⟨[0, 3]⟩ sampleFlight, .node ⟨[0, 4]⟩ sampleFlight])] }

theorem under_sampleHall :
    sampleHall.under "@flights" = [⟨⟨[0, 3]⟩, sampleFlight⟩, ⟨⟨[0, 4]⟩, sampleFlight⟩] := by
  rfl

theorem under_sampleFlight : sampleFlight.under "rail" = [⟨⟨[0, 2]⟩, new "Kit.Rail"⟩] := by
  rfl

theorem reachable_sampleHall : sampleHall.Reachable := by
  have hset : (withMembers "Kit.Hall" ["@flights"]).set "@flights"
      (.list [.node ⟨[0, 3]⟩ sampleFlight, .node ⟨[0, 4]⟩ sampleFlight]) =
        .ok (some .null, sampleHall) := rfl
  exact (reachable_withMembers "Kit.Hall" ["@flights"]).set hset

theorem reachable_sampleFlight : sampleFlight.Reachable := by
  have hset : (new "Kit.Flight").set "rail" (.node ⟨[0, 2]⟩ (new "Kit.Rail")) =
      .ok (none, sampleFlight) := rfl
  exact (Reachable.new "Kit.Flight").set hset

/-- The graph of the hall is one of nodes as the operations make them, and its declared name is
accepted. -/
theorem graph_sampleHall {path : List Occurrence} {c : Context}
    (h : (Context.root ⟨⟨[0]⟩, sampleHall⟩).PathTo AnyMember path c) :
    c.node.Reachable ∧ ∀ name ∈ Entries.keys c.node.declared, Name.validate name = .ok () := by
  have hnode : c.node ∈ [sampleHall, sampleFlight, new "Kit.Rail"] := by
    refine h.holds (P := fun n => n ∈ [sampleHall, sampleFlight, new "Kit.Rail"])
      List.mem_cons_self ?_
    intro n name v hn hv
    have hname := anyMember_of_mem_under hv
    simp only [List.mem_cons, List.not_mem_nil, or_false] at hn
    rcases hn with rfl | rfl | rfl
    · rw [List.mem_singleton.1 hname, under_sampleHall, List.mem_pair] at hv
      rcases hv with rfl | rfl <;> simp
    · rw [List.mem_singleton.1 hname, under_sampleFlight, List.mem_singleton] at hv
      simp [hv]
    · cases hname
  simp only [List.mem_cons, List.not_mem_nil, or_false] at hnode
  rcases hnode with hn | hn | hn <;> rw [hn]
  · refine ⟨reachable_sampleHall, fun name hname => ?_⟩
    rw [List.mem_singleton.1 hname]
    rfl
  · exact ⟨reachable_sampleFlight, fun name hname => absurd hname List.not_mem_nil⟩
  · exact ⟨.new "Kit.Rail", fun name hname => absurd hname List.not_mem_nil⟩

end Node

/-- What the default rule lists of the hall: the two flights, and the rail by the same names along
each. -/
theorem pathIndex_sampleHall : pathIndex [] ⟨⟨[0]⟩, Node.sampleHall⟩ =
    [("", ⟨⟨[0]⟩, Node.sampleHall⟩), ("@flights", ⟨⟨[0, 3]⟩, Node.sampleFlight⟩),
      ("@flights", ⟨⟨[0, 4]⟩, Node.sampleFlight⟩), ("@flights/rail", ⟨⟨[0, 2]⟩, .new "Kit.Rail"⟩),
      ("@flights/rail", ⟨⟨[0, 2]⟩, .new "Kit.Rail"⟩)] := by
  have hrail : ∀ c, Rule.expand [] (.child ⟨⟨[0, 2]⟩, .new "Kit.Rail"⟩ "rail" c) = [] :=
    fun _ => rfl
  have hflight : ∀ handle c, Rule.expand [] (.child ⟨handle, Node.sampleFlight⟩ "@flights" c) =
      [.child ⟨⟨[0, 2]⟩, .new "Kit.Rail"⟩ "rail"
        (.child ⟨handle, Node.sampleFlight⟩ "@flights" c)] :=
    fun _ _ => rfl
  have hhall : Rule.expand [] (.root ⟨⟨[0]⟩, Node.sampleHall⟩) =
      [.child ⟨⟨[0, 3]⟩, Node.sampleFlight⟩ "@flights" (.root ⟨⟨[0]⟩, Node.sampleHall⟩),
        .child ⟨⟨[0, 4]⟩, Node.sampleFlight⟩ "@flights" (.root ⟨⟨[0]⟩, Node.sampleHall⟩)] := rfl
  change (Walk.shownFrom [] [.root ⟨⟨[0]⟩, Node.sampleHall⟩]).map _ = _
  rw [Walk.shownFrom_level, List.flatMap_singleton, hhall, Walk.shownFrom_level, List.flatMap_cons,
    List.flatMap_singleton, hflight, hflight, List.singleton_append, Walk.shownFrom_level,
    List.flatMap_cons, List.flatMap_singleton, hrail, hrail, List.append_nil, Walk.shownFrom_nil]
  rfl

/-- The texts of the hall, and what is found of the names in them. -/
theorem pathTexts_sampleHall :
    (∀ path c, (Context.root ⟨⟨[0]⟩, Node.sampleHall⟩).PathTo Node.AnyMember path c →
      c.node.Reachable ∧ ∀ name ∈ Entries.keys c.node.declared, Name.validate name = .ok ()) ∧
    ∃ listing : List (List Occurrence × Context),
      (Walk.start [] ⟨⟨[0]⟩, Node.sampleHall⟩).Returns (listing.map Prod.snd) ∧
      listing.map (fun (_, c) => (c.pathText, c.vertex)) = pathIndex [] ⟨⟨[0]⟩, Node.sampleHall⟩ ∧
      (∀ path c, (path, c) ∈ listing → c.vertex = ⟨⟨[0, 2]⟩, .new "Kit.Rail"⟩ →
        c.pathText = "@flights/rail" ∧ path.map Occurrence.member = ["@flights", "rail"]) := by
  have hgraph : ∀ path c, (Context.root ⟨⟨[0]⟩, Node.sampleHall⟩).PathTo Node.AnyMember path c →
      c.node.Reachable ∧ ∀ name ∈ Entries.keys c.node.declared, Name.validate name = .ok () :=
    fun _ _ hpath => Node.graph_sampleHall hpath
  obtain ⟨listing, hreturns, hindex, hcontexts, -⟩ :=
    pathIndex_unambiguous [] ⟨⟨[0]⟩, Node.sampleHall⟩ hgraph
  refine ⟨hgraph, listing, hreturns, hindex.symm, ?_⟩
  intro path c hlisted hrail
  have htext : c.pathText = "@flights/rail" := by
    have hentry : (c.pathText, c.vertex) ∈ pathIndex [] ⟨⟨[0]⟩, Node.sampleHall⟩ := by
      rw [hindex]
      exact List.mem_map.2 ⟨(path, c), hlisted, rfl⟩
    rw [pathIndex_sampleHall, hrail] at hentry
    simpa using hentry
  refine ⟨htext, ?_⟩
  rw [← (hcontexts path c hlisted).2.1 (by rw [htext]; decide), htext]
  decide

end ObjectGraph
