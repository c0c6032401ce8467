import Mathlib.Data.List.Perm.Basic
import ObjectGraph.Node
import ObjectGraph.Proofs.Entries.Updates
import ObjectGraph.Value

/-!
# Values with the same content

Two values are alike when they have the same content, whatever their handles are and in whatever
order the members of their nodes and the entries of their maps stand (`Value.Alike`). Alike nodes
agree in their header fields, and in which members are declared and which are dynamic. Equality of
values takes a short cut by handles, so it is the weaker relation: alike values are equal
(`Value.Alike.equals_eq_true`).
-/

namespace ObjectGraph

/-! ## The parts of a value

The parts of a value are the elements of a list, the values of a map and the members of a node. They
are smaller than the value, so what holds of a value whenever it holds of its parts holds of every
value (`Value.induction`).
-/

theorem sizeOf_snd_lt_of_mem {entry : String × Value} {entries : List (String × Value)}
    (h : entry ∈ entries) : sizeOf entry.2 < sizeOf entries := by
  have hentries := List.sizeOf_lt_of_mem h
  have hentry : sizeOf entry.2 < sizeOf entry := by
    cases entry
    simp only [Prod.mk.sizeOf_spec]
    omega
  exact Nat.lt_trans hentry hentries

/-- The value of a member is smaller than the node. -/
theorem Node.sizeOf_member_lt {n : Node} {member : String × Value} (h : member ∈ n.members .all) :
    sizeOf member.2 < sizeOf n := by
  obtain ⟨type, id, app, declared, dynamic⟩ := n
  simp only [Node.mk.sizeOf_spec]
  rcases List.mem_append.1 h with h | h
  · have hlt : sizeOf member.2 < sizeOf declared := sizeOf_snd_lt_of_mem h
    omega
  · have hlt : sizeOf member.2 < sizeOf dynamic := sizeOf_snd_lt_of_mem h
    omega

/-- Induction on a value, with a hypothesis for each of its parts. -/
@[elab_as_elim]
theorem Value.induction {motive : Value → Prop}
    (primitive : ∀ v, v.isPrimitive = true → motive v)
    (node : ∀ handle n, (∀ member ∈ n.members .all, motive member.2) → motive (.node handle n))
    (list : ∀ items, (∀ item ∈ items, motive item) → motive (.list items))
    (map : ∀ entries, (∀ entry ∈ entries, motive entry.2) → motive (.map entries)) (v : Value) :
    motive v := by
  induction hsize : sizeOf v using Nat.strongRecOn generalizing v with
  | ind size ih =>
      subst hsize
      cases v with
      | null | bool | int | float | string => exact primitive _ rfl
      | node handle n =>
          apply node
          intro member hmember
          have hlt := Node.sizeOf_member_lt hmember
          exact ih _ (by simp only [Value.node.sizeOf_spec]; omega) _ rfl
      | list items =>
          apply list
          intro item hitem
          have hlt := List.sizeOf_lt_of_mem hitem
          exact ih _ (by simp only [Value.list.sizeOf_spec]; omega) _ rfl
      | map entries =>
          apply map
          intro entry hentry
          have hlt := sizeOf_snd_lt_of_mem hentry
          exact ih _ (by simp only [Value.map.sizeOf_spec]; omega) _ rfl

/-! ## Alike values -/

namespace Entries

/-- The same keys, each once, in any order. -/
structure SameKeys {α : Type} (xs ys : List (String × α)) : Prop where
  nodup : (keys xs).Nodup
  perm : (keys xs).Perm (keys ys)

namespace SameKeys

variable {α : Type} {xs ys : List (String × α)}

theorem length_eq (h : SameKeys xs ys) : xs.length = ys.length := by
  have hlength := h.perm.length_eq
  rwa [keys, keys, List.length_map, List.length_map] at hlength

/-- Every entry has one of the same key on the other side. -/
theorem exists_get? (h : SameKeys xs ys) {entry : String × α} (hentry : entry ∈ xs) :
    ∃ b, get? entry.1 xs = some entry.2 ∧ get? entry.1 ys = some b := by
  have hmem : entry.1 ∈ keys ys := h.perm.subset (mem_keys_of_mem hentry)
  obtain ⟨b, hb⟩ := mem_keys_iff_exists_get?.1 hmem
  exact ⟨b, get?_of_mem h.nodup hentry, hb⟩

/-- Lists with distinct keys have the same keys if each of them has the keys of the other. -/
theorem of_mem_iff (hx : (keys xs).Nodup) (hy : (keys ys).Nodup)
    (h : ∀ k, k ∈ keys xs ↔ k ∈ keys ys) : SameKeys xs ys :=
  ⟨hx, (List.perm_ext_iff_of_nodup hx hy).2 h⟩

end SameKeys

end Entries

/-- The same content: the same null, boolean, number or text, lists of the same length with alike
elements, maps with the same keys and alike values under them, and nodes with the same header
fields, the same declared and the same dynamic members. Numbers that are not finite are left out. -/
inductive Value.Alike : Value → Value → Prop
  | null : Alike .null .null
  | bool (b : Bool) : Alike (.bool b) (.bool b)
  | int (n : Int64) : Alike (.int n) (.int n)
  | float {x : Binary64} (finite : x.isFinite = true) : Alike (.float x) (.float x)
  | string (s : String) : Alike (.string s) (.string s)
  | list {xs ys : List Value} (hlength : xs.length = ys.length)
      (hitems : ∀ i (hx : i < xs.length) (hy : i < ys.length), Alike xs[i] ys[i]) :
      Alike (.list xs) (.list ys)
  | map {xs ys : List (String × Value)} (hkeys : Entries.SameKeys xs ys)
      (hvalues : ∀ k v w, Entries.get? k xs = some v → Entries.get? k ys = some w → Alike v w) :
      Alike (.map xs) (.map ys)
  | node {h k : Handle} {a b : Node} (htype : a.typeName = b.typeName) (hid : a.id = b.id)
      (happ : a.applicationId = b.applicationId)
      (hdeclared : Entries.SameKeys a.declared b.declared)
      (hdynamic : Entries.SameKeys a.dynamic b.dynamic)
      (hdeclaredValues : ∀ name v w, Entries.get? name a.declared = some v →
        Entries.get? name b.declared = some w → Alike v w)
      (hdynamicValues : ∀ name v w, Entries.get? name a.dynamic = some v →
        Entries.get? name b.dynamic = some w → Alike v w) :
      Alike (.node h a) (.node k b)

theorem Binary64.equals_self {x : Binary64} (h : x.isFinite = true) : x.equals x = true := by
  simp [equals, isNaN, h]

/-- Lists are equal if they are so element by element. -/
theorem listEquals_of_getElem {xs ys : List Value} (hlength : xs.length = ys.length)
    (h : ∀ i (hx : i < xs.length) (hy : i < ys.length), xs[i].equals ys[i] = true) :
    listEquals xs ys = true := by
  induction xs generalizing ys with
  | nil =>
      rw [List.eq_nil_of_length_eq_zero hlength.symm, listEquals]
  | cons x rest ih =>
      cases ys with
      | nil => cases hlength
      | cons y others =>
          rw [listEquals, Bool.and_eq_true]
          constructor
          · exact h 0 (Nat.zero_lt_succ _) (Nat.zero_lt_succ _)
          · apply ih (Nat.succ.inj hlength)
            intro i hx hy
            exact h (i + 1) (Nat.succ_lt_succ hx) (Nat.succ_lt_succ hy)

/-- Entries are within others if each finds an equal value under its key. -/
theorem entriesWithin_of_forall {xs ys : List (String × Value)}
    (h : ∀ entry ∈ xs, ∃ w, Entries.get? entry.1 ys = some w ∧ entry.2.equals w = true) :
    entriesWithin xs ys = true := by
  induction xs with
  | nil => rw [entriesWithin]
  | cons entry rest ih =>
      obtain ⟨⟨w, hw, hequals⟩, hrest⟩ := List.forall_mem_cons.1 h
      rw [entriesWithin, hw, Bool.and_eq_true]
      exact ⟨hequals, ih hrest⟩

/-- Entries with the same keys are equal if they are key by key. -/
theorem entriesEqual_of_sameKeys {xs ys : List (String × Value)} (hkeys : Entries.SameKeys xs ys)
    (h : ∀ k v w, Entries.get? k xs = some v → Entries.get? k ys = some w → v.equals w = true) :
    (xs.length == ys.length && entriesWithin xs ys) = true := by
  rw [Bool.and_eq_true, beq_iff_eq]
  refine ⟨hkeys.length_eq, entriesWithin_of_forall ?_⟩
  intro entry hentry
  obtain ⟨w, hv, hw⟩ := hkeys.exists_get? hentry
  exact ⟨w, hw, h entry.1 entry.2 w hv hw⟩

theorem Node.equals_eq (a b : Node) :
    a.equals b = (a.typeName == b.typeName && a.id == b.id && a.applicationId == b.applicationId &&
      (a.declared.length == b.declared.length && entriesWithin a.declared b.declared) &&
      (a.dynamic.length == b.dynamic.length && entriesWithin a.dynamic b.dynamic)) := by
  cases a
  rw [equals]

/-- Alike values are equal. -/
theorem Value.Alike.equals_eq_true {v w : Value} (h : v.Alike w) : v.equals w = true := by
  induction h with
  | null => rw [equals]
  | bool b | int n | string s =>
      rw [equals]
      exact beq_self_eq_true _
  | float finite =>
      rw [equals]
      exact Binary64.equals_self finite
  | list hlength _ ih =>
      rw [equals]
      exact listEquals_of_getElem hlength ih
  | map hkeys _ ih =>
      rw [equals]
      exact entriesEqual_of_sameKeys hkeys ih
  | node htype hid happ hdeclared hdynamic _ _ ihdeclared ihdynamic =>
      rw [equals, Node.equals_eq, htype, hid, happ, entriesEqual_of_sameKeys hdeclared ihdeclared,
        entriesEqual_of_sameKeys hdynamic ihdynamic]
      simp

end ObjectGraph
