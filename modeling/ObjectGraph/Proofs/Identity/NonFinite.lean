import ObjectGraph.Proofs.Identity.Content
import ObjectGraph.Proofs.Value.Alike

/-!
# Which nodes have no content id

A node has no canonical text exactly if its content holds a number that is not finite
(`Node.canonicalText_eq_error_iff`). The content goes into the members of a node that count, into
the elements of a list and into the values of a map under any key (`Value.FloatAt`). Of several such
numbers the first one is reported, under the innermost name on the path to it; a visit goes through
the parts in order, declared members before dynamic ones, and into each part before the next
(`VisitedBefore`).
-/

namespace ObjectGraph

/-- A step into a value: which of its parts is gone into, counted from the first, and the name that
the part stands under. The elements of a list have no name of their own. -/
structure PartStep where
  position : Nat
  name? : Option String
deriving DecidableEq, Repr

mutual

/-- The floats in the content of a value, each with the path to it. -/
inductive Value.FloatAt : Value → List PartStep → Binary64 → Prop
  | here (x : Binary64) : Value.FloatAt (.float x) [] x
  | node {handle : Handle} {n : Node} {path : List PartStep} {x : Binary64} :
      Node.FloatAt n path x → Value.FloatAt (.node handle n) path x
  | item {items : List Value} {i : Nat} {item : Value} {path : List PartStep} {x : Binary64} :
      items[i]? = some item → Value.FloatAt item path x →
        Value.FloatAt (.list items) (⟨i, none⟩ :: path) x
  | entry {entries : List (String × Value)} {i : Nat} {key : String} {v : Value}
      {path : List PartStep} {x : Binary64} :
      entries[i]? = some (key, v) → Value.FloatAt v path x →
        Value.FloatAt (.map entries) (⟨i, some key⟩ :: path) x

/-- The floats in the content of a node. Members named `id` and those that begin with two low lines
do not belong to it. -/
inductive Node.FloatAt : Node → List PartStep → Binary64 → Prop
  | member {n : Node} {i : Nat} {name : String} {v : Value} {path : List PartStep} {x : Binary64} :
      (n.members .all)[i]? = some (name, v) → name ≠ "id" → ¬ "__".toList <+: name.toList →
        Value.FloatAt v path x → Node.FloatAt n (⟨i, some name⟩ :: path) x

end

/-- Which of two paths is visited first: they part at a step to an earlier and one to a later
part. -/
inductive VisitedBefore : List PartStep → List PartStep → Prop
  | step {s t : PartStep} (path other : List PartStep) : s.position < t.position →
      VisitedBefore (s :: path) (t :: other)
  | within (s : PartStep) {path other : List PartStep} : VisitedBefore path other →
      VisitedBefore (s :: path) (s :: other)

/-- Of floats found on paths, the one visited first that is not finite. -/
structure FirstNonFinite (floatAt : List PartStep → Binary64 → Prop) (path : List PartStep)
    (x : Binary64) : Prop where
  found : floatAt path x
  notFinite : x.isFinite = false
  first : ∀ other y, floatAt other y → y.isFinite = false → other = path ∨ VisitedBefore path other

/-- The last name on a path. -/
def innermost? (path : List PartStep) : Option String :=
  (path.filterMap PartStep.name?).getLast?

/-- Of two places at most one is visited before the other. -/
theorem VisitedBefore.asymm {path other : List PartStep} (h : VisitedBefore path other) :
    ¬ VisitedBefore other path := by
  induction h with
  | step path other hlt =>
      intro hback
      cases hback with
      | step _ _ hgt => exact Nat.lt_asymm hlt hgt
      | within => exact Nat.lt_irrefl _ hlt
  | within s _ ih =>
      intro hback
      cases hback with
      | step _ _ hlt => exact Nat.lt_irrefl _ hlt
      | within _ hback => exact ih hback

/-! ## Paths -/

mutual

/-- A path leads to at most one float. -/
theorem Value.FloatAt.unique : ∀ {v : Value} {path : List PartStep} {x y : Binary64},
    v.FloatAt path x → v.FloatAt path y → x = y
  | _, _, _, _, .here _, h => by
      cases h
      rfl
  | _, _, _, _, .node h, h' => by
      cases h' with
      | node h' => exact h.unique h'
  | _, _, _, _, .item hget h, h' => by
      cases h' with
      | item hget' h' =>
          rw [hget] at hget'
          cases hget'
          exact h.unique h'
  | _, _, _, _, .entry hget h, h' => by
      cases h' with
      | entry hget' h' =>
          rw [hget] at hget'
          cases hget'
          exact h.unique h'

/-- At most one number stands at a place of a node. -/
theorem Node.FloatAt.unique : ∀ {n : Node} {path : List PartStep} {x y : Binary64},
    n.FloatAt path x → n.FloatAt path y → x = y
  | _, _, _, _, .member hget _ _ h, h' => by
      cases h' with
      | member hget' _ _ h' =>
          rw [hget] at hget'
          cases hget'
          exact h.unique h'

end

mutual

/-- A value with a float in its content that is not finite has no content. -/
theorem Value.FloatAt.canonicalTree_ne_ok : ∀ {v : Value} {path : List PartStep} {x : Binary64},
    v.FloatAt path x → x.isFinite = false → ∀ member d, v.canonicalTree member ≠ .ok d
  | _, _, _, .here x, hx => by
      intro member d h
      rw [Value.canonicalTree, dif_neg (by rw [hx]; exact Bool.false_ne_true)] at h
      cases h
  | _, _, _, .node hfloat, hx => by
      intro member d h
      rw [Value.canonicalTree] at h
      exact hfloat.canonicalTree_ne_ok hx d h
  | _, _, _, .item hget hfloat, hx => by
      intro member d h
      rw [Value.canonicalTree] at h
      obtain ⟨ds, hds, -⟩ := bind_eq_ok_iff.1 h
      obtain ⟨part, hpart⟩ := exists_canonicalItems_iff.1 ⟨ds, hds⟩ _ (List.mem_of_getElem? hget)
      exact hfloat.canonicalTree_ne_ok hx member part hpart
  | _, _, _, .entry hget hfloat, hx => by
      intro member d h
      rw [Value.canonicalTree] at h
      obtain ⟨es, hes, -⟩ := bind_eq_ok_iff.1 h
      obtain ⟨part, hpart⟩ := exists_canonicalEntries_iff.1 ⟨es, hes⟩ _ (List.mem_of_getElem? hget)
      exact hfloat.canonicalTree_ne_ok hx _ part hpart

/-- A node with a number at a counted place that is not finite has no content. -/
theorem Node.FloatAt.canonicalTree_ne_ok : ∀ {n : Node} {path : List PartStep} {x : Binary64},
    n.FloatAt path x → x.isFinite = false → ∀ d, n.canonicalTree ≠ .ok d
  | n, _, _, @Node.FloatAt.member _ i name v path x hget hid htransient hfloat, hx => by
      intro d h
      rw [Node.canonicalTree_eq] at h
      obtain ⟨es, hes, -⟩ := bind_eq_ok_iff.1 h
      have hhashed : (name, v) ∈ n.hashedMembers :=
        List.mem_filter.2 ⟨List.mem_of_getElem? hget, Name.isHashed_iff.2 ⟨hid, htransient⟩⟩
      obtain ⟨part, hpart⟩ := exists_canonicalEntries_iff.1 ⟨es, hes⟩ _ hhashed
      exact hfloat.canonicalTree_ne_ok hx name part hpart

end

/-! ## The first float that is not finite -/

/-- A path into the part behind `before`, compared with a path into a part that is not among
`before`. -/
theorem eq_or_visitedBefore_cons {α : Type} {before after : List α} {a b : α} {s t : PartStep}
    {path other : List PartStep} (hs : s.position = before.length)
    (hget : (before ++ a :: after)[t.position]? = some b) (hbefore : b ∉ before)
    (hsame : b = a → t.name? = s.name? ∧ (other = path ∨ VisitedBefore path other)) :
    t :: other = s :: path ∨ VisitedBefore (s :: path) (t :: other) := by
  rcases Nat.lt_trichotomy t.position before.length with hlt | heq | hgt
  · rw [List.getElem?_append_left hlt] at hget
    exact absurd (List.mem_of_getElem? hget) hbefore
  · rw [heq, List.getElem?_append_right (Nat.le_refl _), Nat.sub_self] at hget
    cases hget
    obtain ⟨hname, hpath⟩ := hsame rfl
    have hstep : t = s := by
      cases s
      cases t
      rw [PartStep.mk.injEq]
      exact ⟨heq.trans hs.symm, hname⟩
    subst hstep
    rcases hpath with rfl | hvisited
    · exact .inl rfl
    · exact .inr (.within _ hvisited)
  · exact .inr (.step _ _ (hs ▸ hgt))

namespace FirstNonFinite

variable {v : Value} {path : List PartStep} {x : Binary64} {key : String}

/-- The first such number of a list is that of the first element with one. -/
theorem item {before after : List Value} (h : FirstNonFinite v.FloatAt path x)
    (hbefore : ∀ w ∈ before, ∃ d, w.canonicalTree key = .ok d) :
    FirstNonFinite (Value.list (before ++ v :: after)).FloatAt
      (⟨before.length, none⟩ :: path) x := by
  refine ⟨.item (by simp) h.found, h.notFinite, ?_⟩
  intro other y hother hy
  cases hother with
  | item hget hfloat =>
      apply eq_or_visitedBefore_cons rfl hget
      · intro hmem
        obtain ⟨d, hd⟩ := hbefore _ hmem
        exact hfloat.canonicalTree_ne_ok hy key d hd
      · rintro rfl
        exact ⟨rfl, h.first _ y hfloat hy⟩

/-- The first such number of a map is that of the first entry with one. -/
theorem entry {before after : List (String × Value)} (h : FirstNonFinite v.FloatAt path x)
    (hbefore : ∀ entry ∈ before, ∃ d, entry.2.canonicalTree entry.1 = .ok d) :
    FirstNonFinite (Value.map (before ++ (key, v) :: after)).FloatAt
      (⟨before.length, some key⟩ :: path) x := by
  refine ⟨.entry (by simp) h.found, h.notFinite, ?_⟩
  intro other y hother hy
  cases hother with
  | entry hget hfloat =>
      apply eq_or_visitedBefore_cons rfl hget
      · intro hmem
        obtain ⟨d, hd⟩ := hbefore _ hmem
        exact hfloat.canonicalTree_ne_ok hy _ d hd
      · intro heq
        cases heq
        exact ⟨rfl, h.first _ y hfloat hy⟩

/-- The first such number of a node is that of the first member with one. -/
theorem member {n : Node} {before after : List (String × Value)}
    (h : FirstNonFinite v.FloatAt path x) (hmembers : n.members .all = before ++ (key, v) :: after)
    (hkey : Name.isHashed key = true)
    (hbefore : ∀ member ∈ before, Name.isHashed member.1 = true →
      ∃ d, member.2.canonicalTree member.1 = .ok d) :
    FirstNonFinite n.FloatAt (⟨before.length, some key⟩ :: path) x := by
  obtain ⟨hid, htransient⟩ := Name.isHashed_iff.1 hkey
  refine ⟨.member (by simp [hmembers]) hid htransient h.found, h.notFinite, ?_⟩
  intro other y hother hy
  cases hother with
  | member hget hid htransient hfloat =>
      rw [hmembers] at hget
      apply eq_or_visitedBefore_cons rfl hget
      · intro hmem
        obtain ⟨d, hd⟩ := hbefore _ hmem (Name.isHashed_iff.2 ⟨hid, htransient⟩)
        exact hfloat.canonicalTree_ne_ok hy _ d hd
      · intro heq
        cases heq
        exact ⟨rfl, h.first _ y hfloat hy⟩

/-- There is one path at most that is visited first. -/
theorem path_eq {floatAt : List PartStep → Binary64 → Prop} {other : List PartStep} {y : Binary64}
    (h : FirstNonFinite floatAt path x) (h' : FirstNonFinite floatAt other y) : path = other := by
  rcases h'.first _ _ h.found h.notFinite with heq | hvisited
  · exact heq
  · rcases h.first _ _ h'.found h'.notFinite with heq | hback
    · exact heq.symm
    · exact absurd hback hvisited.asymm

end FirstNonFinite

theorem innermost?_item (i : Nat) (path : List PartStep) :
    innermost? (⟨i, none⟩ :: path) = innermost? path :=
  rfl

theorem innermost?_named (i : Nat) (name : String) (path : List PartStep) :
    innermost? (⟨i, some name⟩ :: path) = some ((innermost? path).getD name) :=
  List.getLast?_cons

/-- A node whose members that count, if they fail, fail with their first float, fails with its first
float. -/
theorem Node.exists_firstNonFinite {n : Node}
    (ih : ∀ member ∈ n.members .all, ∀ name e, member.2.canonicalTree name = .error e →
      ∃ path x, FirstNonFinite member.2.FloatAt path x ∧
        e = .nonFiniteFloat ((innermost? path).getD name) x)
    {e : CanonicalError} (h : n.canonicalTree = .error e) :
    ∃ path x name, FirstNonFinite n.FloatAt path x ∧ innermost? path = some name ∧
      e = .nonFiniteFloat name x := by
  rw [canonicalTree_eq, bind_pure_eq_error_iff] at h
  obtain ⟨before, name, v, after, hmembers, hname, hbefore, hv⟩ :=
    canonicalEntries_filter_eq_error h
  obtain ⟨path, x, hfirst, rfl⟩ := ih (name, v) (by simp [hmembers]) name e hv
  exact ⟨_, x, _, hfirst.member hmembers hname hbefore, innermost?_named .., rfl⟩

/-- A value without a content reports its first float that is not finite, under the innermost name
on the path or, if there is none, under the name of the value. -/
theorem Value.exists_firstNonFinite (v : Value) :
    ∀ name e, v.canonicalTree name = .error e →
      ∃ path x, FirstNonFinite v.FloatAt path x ∧
        e = .nonFiniteFloat ((innermost? path).getD name) x := by
  induction v using Value.induction with
  | primitive v hprimitive =>
      intro name e h
      cases v with
      | null | bool | int | string => cases h
      | float x =>
          rw [canonicalTree] at h
          split at h
          · cases h
          · rename_i hx
            cases h
            refine ⟨[], x, ⟨.here x, Bool.eq_false_iff.2 hx, ?_⟩, rfl⟩
            intro other y hother _
            cases hother
            exact .inl rfl
      | node | list | map => cases hprimitive
  | node handle n ih =>
      intro name e h
      rw [canonicalTree] at h
      obtain ⟨path, x, inner, ⟨hfound, hnot, hfirst⟩, hinner, rfl⟩ :=
        Node.exists_firstNonFinite ih h
      refine ⟨path, x, ⟨.node hfound, hnot, ?_⟩, by rw [hinner, Option.getD_some]⟩
      intro other y hother hy
      cases hother with
      | node hother => exact hfirst other y hother hy
  | list items ih =>
      intro name e h
      rw [canonicalTree, bind_pure_eq_error_iff] at h
      obtain ⟨before, item, after, rfl, hbefore, hitem⟩ := canonicalItems_eq_error h
      obtain ⟨path, x, hfirst, rfl⟩ := ih item (by simp) name e hitem
      exact ⟨_, x, hfirst.item hbefore, by rw [innermost?_item]⟩
  | map entries ih =>
      intro name e h
      rw [canonicalTree, bind_pure_eq_error_iff] at h
      -- Under a map every key counts.
      have hall : (entries.filter fun _ => true) = entries := List.filter_eq_self.2 fun _ _ => rfl
      rw [← hall] at h
      obtain ⟨before, key, w, after, rfl, -, hbefore, hw⟩ :=
        canonicalEntries_filter_eq_error (p := fun _ => true) h
      obtain ⟨path, x, hfirst, rfl⟩ := ih (key, w) (by simp) key e hw
      exact ⟨_, x, hfirst.entry fun entry hentry => hbefore entry hentry rfl,
        by rw [innermost?_named, Option.getD_some]⟩

/-- A canonical text is missing exactly if the content of the node holds a float that is not finite,
so such floats elsewhere do no harm. The error names the float that is visited first, and the
innermost key or member that it stands under. -/
theorem Node.canonicalText_eq_error_iff (n : Node) :
    ((∃ e, n.canonicalText = .error e) ↔ ∃ path x, n.FloatAt path x ∧ x.isFinite = false) ∧
    ((∃ text, n.canonicalText = .ok text) ↔ ∀ path x, n.FloatAt path x → x.isFinite = true) ∧
    ∀ e, n.canonicalText = .error e ↔ ∃ path x name, FirstNonFinite n.FloatAt path x ∧
      innermost? path = some name ∧ e = .nonFiniteFloat name x := by
  have hfirst : ∀ {e}, n.canonicalText = .error e → ∃ path x name, FirstNonFinite n.FloatAt path x ∧
      innermost? path = some name ∧ e = .nonFiniteFloat name x := by
    intro e h
    rw [canonicalText, map_eq_error_iff] at h
    exact exists_firstNonFinite (fun member _ => member.2.exists_firstNonFinite) h
  have hfails : ∀ {path x}, n.FloatAt path x → x.isFinite = false →
      ∃ e, n.canonicalText = .error e := by
    intro path x hfloat hx
    cases htree : n.canonicalTree with
    | ok d => exact absurd htree (hfloat.canonicalTree_ne_ok hx d)
    | error e => exact ⟨e, by rw [canonicalText, htree]; rfl⟩
  refine ⟨⟨?_, ?_⟩, ⟨?_, ?_⟩, ?_⟩
  · rintro ⟨e, h⟩
    obtain ⟨path, x, -, hpath, -, -⟩ := hfirst h
    exact ⟨path, x, hpath.found, hpath.notFinite⟩
  · rintro ⟨path, x, hfloat, hx⟩
    exact hfails hfloat hx
  · rintro ⟨text, h⟩ path x hfloat
    cases hx : x.isFinite with
    | true => rfl
    | false =>
        obtain ⟨e, he⟩ := hfails hfloat hx
        rw [h] at he
        cases he
  · intro hfinite
    cases htext : n.canonicalText with
    | ok text => exact ⟨text, rfl⟩
    | error e =>
        obtain ⟨path, x, -, hpath, -, -⟩ := hfirst htext
        have hx := hfinite path x hpath.found
        rw [hpath.notFinite] at hx
        cases hx
  · intro e
    constructor
    · exact hfirst
    · rintro ⟨path, x, name, hpath, hname, rfl⟩
      obtain ⟨e, he⟩ := hfails hpath.found hpath.notFinite
      obtain ⟨other, y, name', hother, hname', rfl⟩ := hfirst he
      -- Both are visited first, so they are the same.
      obtain rfl := hpath.path_eq hother
      rw [hname] at hname'
      cases hname'
      rw [he, hpath.found.unique hother.found]

namespace Node

/-- A profile with three floats that are not finite. -/
def sampleProfile : Node where
  typeName := "Kit.Profile"
  id := none
  applicationId := none
  declared := [("__cache", .float ⟨0x7ff8000000000000⟩)]
  dynamic := [("tags", .map [("id", .list [.int 1, .float ⟨0x7ff0000000000000⟩])]),
    ("area", .float ⟨0x7ff8000000000000⟩)]

-- The cache does not count; the key of a map does, whatever it is, and an element of a list is
-- reported under it.
example : sampleProfile.canonicalText = .error (.nonFiniteFloat "id" ⟨0x7ff0000000000000⟩) := by rfl

end Node

end ObjectGraph
