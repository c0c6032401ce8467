import Mathlib.Data.List.Perm.Subperm
import ObjectGraph.Proofs.Value.Alike

/-!
# Equality as a relation

Equality of values over one set of shared nodes is symmetric and transitive (`Value.equals_symm`,
`Value.equals_trans`). It is not reflexive, as a NaN differs from itself; a value is equal to itself
exactly if no NaN stands in it outside of nodes (`Value.equals_self_iff`), since two references to
one node are equal whatever the node holds.

That a handle always refers to the same node is what transitivity rests on: of two neighbouring
steps one may compare handles and the other contents. `Value.equals_iff` takes an equality apart,
into the same value twice, two zeros or equal parts (`Value.Agrees`); the parts of maps and nodes go
together by key (`Entries.RelatedByKey`).
-/

namespace ObjectGraph

/-! ## Values over shared nodes -/

/-- A value whose references go to the nodes that a heap has under the handles, at every depth. Keys
of a map are distinct, and so are the names of the declared and of the dynamic members of a node. -/
inductive Value.Over (heap : Handle → Node) : Value → Prop
  | primitive {v : Value} : v.isPrimitive = true → Over heap v
  | node {handle : Handle} {n : Node} : heap handle = n → (Entries.keys n.declared).Nodup →
      (Entries.keys n.dynamic).Nodup → (∀ member ∈ n.members .all, Over heap member.2) →
        Over heap (.node handle n)
  | list {items : List Value} : (∀ item ∈ items, Over heap item) → Over heap (.list items)
  | map {entries : List (String × Value)} : (Entries.keys entries).Nodup →
      (∀ entry ∈ entries, Over heap entry.2) → Over heap (.map entries)

/-- A node whose members are values over the heap. The node itself need not be in the heap. -/
structure Node.Over (heap : Handle → Node) (n : Node) : Prop where
  declared : (Entries.keys n.declared).Nodup
  dynamic : (Entries.keys n.dynamic).Nodup
  members : ∀ member ∈ n.members .all, member.2.Over heap

/-- A NaN stands in a value outside of nodes. -/
inductive Value.ShowsNaN : Value → Prop
  | here {x : Binary64} : x.isNaN = true → ShowsNaN (.float x)
  | item {items : List Value} {item : Value} : item ∈ items → ShowsNaN item → ShowsNaN (.list items)
  | entry {entries : List (String × Value)} {entry : String × Value} : entry ∈ entries →
      ShowsNaN entry.2 → ShowsNaN (.map entries)

/-! ## Lists and entries that go together -/

section Elements

variable {α : Type} {R S : α → α → Prop} {xs ys zs : List α}

theorem forall₂_imp (h : List.Forall₂ R xs ys) (himp : ∀ x ∈ xs, ∀ y ∈ ys, R x y → S x y) :
    List.Forall₂ S xs ys := by
  induction h with
  | nil => exact .nil
  | @cons x y xs ys hfirst _ ih =>
      refine .cons (himp x List.mem_cons_self y List.mem_cons_self hfirst) (ih ?_)
      intro x hx y hy
      exact himp x (List.mem_cons_of_mem _ hx) y (List.mem_cons_of_mem _ hy)

theorem forall₂_symm (h : List.Forall₂ R xs ys) (hsymm : ∀ x ∈ xs, ∀ y ∈ ys, R x y → S y x) :
    List.Forall₂ S ys xs := by
  have hflip : List.Forall₂ (flip S) xs ys := forall₂_imp h hsymm
  exact hflip.flip

theorem forall₂_trans (h : List.Forall₂ R xs ys) (h' : List.Forall₂ R ys zs)
    (htrans : ∀ x ∈ xs, ∀ y ∈ ys, ∀ z ∈ zs, R x y → R y z → R x z) : List.Forall₂ R xs zs := by
  induction h generalizing zs with
  | nil =>
      cases h'
      exact .nil
  | @cons x y xs ys hfirst _ ih =>
      cases h' with
      | @cons _ z _ zs hfirst' hrest' =>
          refine .cons ?_ (ih hrest' ?_)
          · exact htrans x List.mem_cons_self y List.mem_cons_self z List.mem_cons_self
              hfirst hfirst'
          · intro x hx y hy z hz
            exact htrans x (List.mem_cons_of_mem _ hx) y (List.mem_cons_of_mem _ hy) z
              (List.mem_cons_of_mem _ hz)

end Elements

namespace Entries

variable {α : Type} {R S : α → α → Prop} {xs ys zs : List (String × α)}

theorem SameKeys.symm (h : SameKeys xs ys) : SameKeys ys xs :=
  ⟨h.perm.nodup_iff.1 h.nodup, h.perm.symm⟩

theorem SameKeys.trans (h : SameKeys xs ys) (h' : SameKeys ys zs) : SameKeys xs zs :=
  ⟨h.nodup, h.perm.trans h'.perm⟩

/-- The same keys, with related values under each of them. -/
structure RelatedByKey (R : α → α → Prop) (xs ys : List (String × α)) : Prop where
  keys : SameKeys xs ys
  values : ∀ k v w, get? k xs = some v → get? k ys = some w → R v w

namespace RelatedByKey

theorem symm (h : RelatedByKey R xs ys) (hsymm : ∀ x ∈ xs, ∀ y ∈ ys, R x.2 y.2 → S y.2 x.2) :
    RelatedByKey S ys xs := by
  refine ⟨h.keys.symm, ?_⟩
  intro k w v hw hv
  exact hsymm (k, v) (mem_of_get? hv) (k, w) (mem_of_get? hw) (h.values k v w hv hw)

theorem trans (h : RelatedByKey R xs ys) (h' : RelatedByKey R ys zs)
    (htrans : ∀ x ∈ xs, ∀ y ∈ ys, ∀ z ∈ zs, R x.2 y.2 → R y.2 z.2 → R x.2 z.2) :
    RelatedByKey R xs zs := by
  refine ⟨h.keys.trans h'.keys, ?_⟩
  intro k u w hu hw
  obtain ⟨v, -, hv⟩ := h.keys.exists_get? (mem_of_get? hu)
  exact htrans (k, u) (mem_of_get? hu) (k, v) (mem_of_get? hv) (k, w) (mem_of_get? hw)
    (h.values k u v hu hv) (h'.values k v w hv hw)

theorem imp (h : RelatedByKey R xs ys) (himp : ∀ x ∈ xs, ∀ y ∈ ys, R x.2 y.2 → S x.2 y.2) :
    RelatedByKey S xs ys := by
  refine ⟨h.keys, ?_⟩
  intro k v w hv hw
  exact himp (k, v) (mem_of_get? hv) (k, w) (mem_of_get? hw) (h.values k v w hv hw)

end RelatedByKey

end Entries

open Entries (RelatedByKey)

/-! ## Equality taken apart -/

theorem listEquals_iff {xs ys : List Value} :
    listEquals xs ys = true ↔ List.Forall₂ (fun v w => v.equals w = true) xs ys := by
  induction xs generalizing ys with
  | nil => cases ys <;> simp [listEquals]
  | cons x rest ih => cases ys <;> simp [listEquals, ih]

/-- Entries within others find an equal value each. -/
theorem exists_get?_of_entriesWithin {xs ys : List (String × Value)}
    (h : entriesWithin xs ys = true) :
    ∀ entry ∈ xs, ∃ w, Entries.get? entry.1 ys = some w ∧ entry.2.equals w = true := by
  induction xs with
  | nil => exact List.forall_mem_nil _
  | cons entry rest ih =>
      obtain ⟨key, v⟩ := entry
      rw [entriesWithin, Bool.and_eq_true] at h
      refine List.forall_mem_cons.2 ⟨?_, ih h.2⟩
      cases hget : Entries.get? key ys with
      | none =>
          rw [hget] at h
          cases h.1
      | some w =>
          rw [hget] at h
          exact ⟨w, rfl, h.1⟩

/-- Maps of the same size are equal if every entry of the first has an equal one in the second. With
distinct keys there is then no other entry in the second. -/
theorem entriesEqual_iff {xs ys : List (String × Value)} (hx : (Entries.keys xs).Nodup) :
    (xs.length == ys.length && entriesWithin xs ys) = true ↔
      RelatedByKey (fun v w => v.equals w = true) xs ys := by
  constructor
  · intro h
    rw [Bool.and_eq_true, beq_iff_eq] at h
    obtain ⟨hlength, hwithin⟩ := h
    have hentries := exists_get?_of_entriesWithin hwithin
    have hsubset : Entries.keys xs ⊆ Entries.keys ys := by
      intro k hk
      obtain ⟨entry, hentry, rfl⟩ := List.mem_map.1 hk
      obtain ⟨w, hw, -⟩ := hentries entry hentry
      exact Entries.mem_keys_iff_exists_get?.2 ⟨w, hw⟩
    -- The keys of the first are among those of the second, which has no more of them.
    have hkeys : (Entries.keys ys).length = (Entries.keys xs).length := by
      rw [Entries.keys, Entries.keys, List.length_map, List.length_map, hlength]
    have hperm : (Entries.keys xs).Perm (Entries.keys ys) :=
      (List.subperm_of_subset hx hsubset).perm_of_length_le (Nat.le_of_eq hkeys)
    refine ⟨⟨hx, hperm⟩, ?_⟩
    intro k v w hv hw
    obtain ⟨w', hw', hequals⟩ := hentries (k, v) (Entries.mem_of_get? hv)
    rw [hw] at hw'
    cases hw'
    exact hequals
  · intro h
    exact entriesEqual_of_sameKeys h.keys h.values

/-- Equal header fields, the same names on each side, and equal values under them. -/
structure Node.Agrees (a b : Node) : Prop where
  typeName : a.typeName = b.typeName
  id : a.id = b.id
  applicationId : a.applicationId = b.applicationId
  declared : RelatedByKey (fun v w => v.equals w = true) a.declared b.declared
  dynamic : RelatedByKey (fun v w => v.equals w = true) a.dynamic b.dynamic

/-- How two values can be equal: as one value that is equal to itself, as the two zeros, or by their
parts. -/
inductive Value.Agrees : Value → Value → Prop
  | same {v : Value} : v.equals v = true → Agrees v v
  | zero {x y : Binary64} : x.isZero = true → y.isZero = true → Agrees (.float x) (.float y)
  | node {h k : Handle} {a b : Node} : a.Agrees b → Agrees (.node h a) (.node k b)
  | list {xs ys : List Value} : List.Forall₂ (fun v w => v.equals w = true) xs ys →
      Agrees (.list xs) (.list ys)
  | map {xs ys : List (String × Value)} : RelatedByKey (fun v w => v.equals w = true) xs ys →
      Agrees (.map xs) (.map ys)

namespace Binary64

theorem isFinite_of_isZero {x : Binary64} (h : x.isZero = true) : x.isFinite = true := by
  simp only [isZero, beq_iff_eq] at h
  simp [isFinite, exponentBits, h]

theorem isNaN_of_isZero {x : Binary64} (h : x.isZero = true) : x.isNaN = false := by
  simp [isNaN, isFinite_of_isZero h]

/-- Equal numbers are one number or the two zeros. -/
theorem equals_iff {x y : Binary64} :
    x.equals y = true ↔ (x = y ∧ x.isNaN = false) ∨ (x.isZero = true ∧ y.isZero = true) := by
  simp only [equals, Bool.and_eq_true, Bool.or_eq_true, Bool.not_eq_true', beq_iff_eq]
  constructor
  · rintro ⟨⟨hx, -⟩, rfl | hzero⟩
    · exact .inl ⟨rfl, hx⟩
    · exact .inr hzero
  · rintro (⟨rfl, hx⟩ | ⟨hx, hy⟩)
    · exact ⟨⟨hx, hx⟩, .inl rfl⟩
    · exact ⟨⟨isNaN_of_isZero hx, isNaN_of_isZero hy⟩, .inr ⟨hx, hy⟩⟩

end Binary64

section Over

variable {heap : Handle → Node} {a b c : Node} {u v w : Value}

theorem Value.Over.of_node {handle : Handle} (h : (Value.node handle a).Over heap) :
    heap handle = a ∧ a.Over heap := by
  cases h with
  | primitive h => cases h
  | node hheap hdeclared hdynamic hmembers => exact ⟨hheap, hdeclared, hdynamic, hmembers⟩

theorem Node.Over.toValue {handle : Handle} (h : a.Over heap) (hheap : heap handle = a) :
    (Value.node handle a).Over heap :=
  .node hheap h.declared h.dynamic h.members

theorem Value.Over.of_list {items : List Value} (h : (Value.list items).Over heap) :
    ∀ item ∈ items, item.Over heap := by
  cases h with
  | primitive h => cases h
  | list hitems => exact hitems

theorem Value.Over.of_map {entries : List (String × Value)} (h : (Value.map entries).Over heap) :
    (Entries.keys entries).Nodup ∧ ∀ entry ∈ entries, entry.2.Over heap := by
  cases h with
  | primitive h => cases h
  | map hkeys hvalues => exact ⟨hkeys, hvalues⟩

/-- Equality of nodes, said by header fields and members. -/
theorem Node.equals_iff (ha : a.Over heap) : a.equals b = true ↔ a.Agrees b := by
  rw [equals_eq, Bool.and_eq_true, Bool.and_eq_true, Bool.and_eq_true, Bool.and_eq_true,
    entriesEqual_iff ha.declared, entriesEqual_iff ha.dynamic, beq_iff_eq, beq_iff_eq, beq_iff_eq]
  constructor
  · rintro ⟨⟨⟨⟨htype, hid⟩, happ⟩, hdeclared⟩, hdynamic⟩
    exact ⟨htype, hid, happ, hdeclared, hdynamic⟩
  · rintro ⟨htype, hid, happ, hdeclared, hdynamic⟩
    exact ⟨⟨⟨⟨htype, hid⟩, happ⟩, hdeclared⟩, hdynamic⟩

/-- Equality of values, said by their kinds. -/
theorem Value.equals_iff (hv : v.Over heap) (hw : w.Over heap) :
    v.equals w = true ↔ v.Agrees w := by
  constructor
  · intro h
    cases v with
    | null =>
        cases w with
        | null => exact .same h
        | _ => simp [equals] at h
    | bool | int | string =>
        -- Equal primitives of these kinds are the same.
        cases w <;> simp only [equals, beq_iff_eq, Bool.false_eq_true] at h
        subst h
        exact .same (by simp [equals])
    | float x =>
        cases w with
        | float y =>
            rcases Binary64.equals_iff.1 (by simpa only [equals] using h) with ⟨rfl, -⟩ | ⟨hx, hy⟩
            · exact .same h
            · exact .zero hx hy
        | _ => simp [equals] at h
    | node handle a =>
        cases w with
        | node other b =>
            obtain ⟨hheap, ha⟩ := hv.of_node
            rw [equals, Bool.or_eq_true, beq_iff_eq, Node.equals_iff ha] at h
            rcases h with rfl | h
            · -- One handle refers to one node.
              obtain rfl : a = b := hheap.symm.trans hw.of_node.1
              exact .same (by simp [equals])
            · exact .node h
        | _ => simp [equals] at h
    | list xs =>
        cases w with
        | list ys => exact .list (listEquals_iff.1 (by simpa only [equals] using h))
        | _ => simp [equals] at h
    | map xs =>
        cases w with
        | map ys => exact .map ((entriesEqual_iff hv.of_map.1).1 (by simpa only [equals] using h))
        | _ => simp [equals] at h
  · intro h
    cases h with
    | same h => exact h
    | zero hx hy =>
        rw [equals]
        exact Binary64.equals_iff.2 (.inr ⟨hx, hy⟩)
    | node h => rw [equals, (Node.equals_iff hv.of_node.2).2 h, Bool.or_true]
    | list h =>
        rw [equals]
        exact listEquals_iff.2 h
    | map h =>
        rw [equals]
        exact (entriesEqual_iff hv.of_map.1).2 h

theorem Node.Over.of_declared (ha : a.Over heap) : ∀ member ∈ a.declared, member.2.Over heap :=
  fun member hmember => ha.members member (List.mem_append_left _ hmember)

theorem Node.Over.of_dynamic (ha : a.Over heap) : ∀ member ∈ a.dynamic, member.2.Over heap :=
  fun member hmember => ha.members member (List.mem_append_right _ hmember)

/-! ## Symmetry -/

/-- Nodes are compared in either order if their members can be. -/
theorem Node.Agrees.symm (h : a.Agrees b) (ha : a.Over heap) (hb : b.Over heap)
    (ih : ∀ member ∈ a.members .all, ∀ {w}, member.2.Over heap → w.Over heap →
      member.2.equals w = true → w.equals member.2 = true) : b.Agrees a where
  typeName := h.typeName.symm
  id := h.id.symm
  applicationId := h.applicationId.symm
  declared := h.declared.symm fun x hx y hy =>
    ih x (List.mem_append_left _ hx) (ha.of_declared x hx) (hb.of_declared y hy)
  dynamic := h.dynamic.symm fun x hx y hy =>
    ih x (List.mem_append_right _ hx) (ha.of_dynamic x hx) (hb.of_dynamic y hy)

/-- Equality is symmetric, by induction on the first value. -/
theorem Value.equals_symm :
    ∀ {w}, v.Over heap → w.Over heap → v.equals w = true → w.equals v = true := by
  induction v using Value.induction with
  | primitive v hprimitive =>
      intro w hv hw h
      rw [equals_iff hw hv]
      cases (equals_iff hv hw).1 h with
      | same h => exact .same h
      | zero hx hy => exact .zero hy hx
      | node | list | map => cases hprimitive
  | node handle a ih =>
      intro w hv hw h
      rw [equals_iff hw hv]
      cases (equals_iff hv hw).1 h with
      | same h => exact .same h
      | node hparts => exact .node (hparts.symm hv.of_node.2 hw.of_node.2 ih)
  | list items ih =>
      intro w hv hw h
      rw [equals_iff hw hv]
      cases (equals_iff hv hw).1 h with
      | same h => exact .same h
      | list hparts =>
          refine .list (forall₂_symm hparts ?_)
          intro x hx y hy
          exact ih x hx (hv.of_list x hx) (hw.of_list y hy)
  | map entries ih =>
      intro w hv hw h
      rw [equals_iff hw hv]
      cases (equals_iff hv hw).1 h with
      | same h => exact .same h
      | map hparts =>
          refine .map (hparts.symm ?_)
          intro x hx y hy
          exact ih x hx (hv.of_map.2 x hx) (hw.of_map.2 y hy)

/-! ## Transitivity -/

/-- Equality goes on from node to node if it does from member to member. -/
theorem Node.Agrees.trans (h : a.Agrees b) (h' : b.Agrees c) (ha : a.Over heap) (hb : b.Over heap)
    (hc : c.Over heap)
    (ih : ∀ member ∈ a.members .all, ∀ {v w}, member.2.Over heap → v.Over heap → w.Over heap →
      member.2.equals v = true → v.equals w = true → member.2.equals w = true) : a.Agrees c where
  typeName := h.typeName.trans h'.typeName
  id := h.id.trans h'.id
  applicationId := h.applicationId.trans h'.applicationId
  declared := h.declared.trans h'.declared fun x hx y hy z hz =>
    ih x (List.mem_append_left _ hx) (ha.of_declared x hx) (hb.of_declared y hy)
      (hc.of_declared z hz)
  dynamic := h.dynamic.trans h'.dynamic fun x hx y hy z hz =>
    ih x (List.mem_append_right _ hx) (ha.of_dynamic x hx) (hb.of_dynamic y hy) (hc.of_dynamic z hz)

/-- Equality is transitive, by induction on the first value. -/
theorem Value.equals_trans : ∀ {v w}, u.Over heap → v.Over heap → w.Over heap → u.equals v = true →
    v.equals w = true → u.equals w = true := by
  induction u using Value.induction with
  | primitive u hprimitive =>
      intro v w hu hv hw huv hvw
      rw [equals_iff hu hw]
      cases (equals_iff hu hv).1 huv with
      -- Where one of the two steps stays at its value, the other one is the whole way.
      | same => exact (equals_iff hv hw).1 hvw
      | zero hx hy =>
          cases (equals_iff hv hw).1 hvw with
          | same => exact .zero hx hy
          | zero _ hz => exact .zero hx hz
      | node | list | map => cases hprimitive
  | node handle a ih =>
      intro v w hu hv hw huv hvw
      rw [equals_iff hu hw]
      cases (equals_iff hu hv).1 huv with
      | same => exact (equals_iff hv hw).1 hvw
      | node h =>
          cases (equals_iff hv hw).1 hvw with
          | same => exact .node h
          | node h' => exact .node (h.trans h' hu.of_node.2 hv.of_node.2 hw.of_node.2 ih)
  | list items ih =>
      intro v w hu hv hw huv hvw
      rw [equals_iff hu hw]
      cases (equals_iff hu hv).1 huv with
      | same => exact (equals_iff hv hw).1 hvw
      | list h =>
          cases (equals_iff hv hw).1 hvw with
          | same => exact .list h
          | list h' =>
              refine .list (forall₂_trans h h' ?_)
              intro x hx y hy z hz
              exact ih x hx (hu.of_list x hx) (hv.of_list y hy) (hw.of_list z hz)
  | map entries ih =>
      intro v w hu hv hw huv hvw
      rw [equals_iff hu hw]
      cases (equals_iff hu hv).1 huv with
      | same => exact (equals_iff hv hw).1 hvw
      | map h =>
          cases (equals_iff hv hw).1 hvw with
          | same => exact .map h
          | map h' =>
              refine .map (h.trans h' ?_)
              intro x hx y hy z hz
              exact ih x hx (hu.of_map.2 x hx) (hv.of_map.2 y hy) (hw.of_map.2 z hz)

/-! ## Which values are equal to themselves -/

theorem Value.showsNaN_float_iff {x : Binary64} : (Value.float x).ShowsNaN ↔ x.isNaN = true := by
  constructor
  · rintro ⟨h⟩
    exact h
  · exact .here

theorem Value.showsNaN_list_iff {items : List Value} :
    (Value.list items).ShowsNaN ↔ ∃ item ∈ items, item.ShowsNaN := by
  constructor
  · intro h
    cases h with
    | item hitem hnan => exact ⟨_, hitem, hnan⟩
  · rintro ⟨item, hitem, hnan⟩
    exact .item hitem hnan

theorem Value.showsNaN_map_iff {entries : List (String × Value)} :
    (Value.map entries).ShowsNaN ↔ ∃ entry ∈ entries, entry.2.ShowsNaN := by
  constructor
  · intro h
    cases h with
    | entry hentry hnan => exact ⟨_, hentry, hnan⟩
  · rintro ⟨entry, hentry, hnan⟩
    exact .entry hentry hnan

/-- A map goes with itself if each of its values does. -/
theorem Entries.relatedByKey_self {α : Type} {R : α → α → Prop} {entries : List (String × α)}
    (hkeys : (Entries.keys entries).Nodup) :
    RelatedByKey R entries entries ↔ ∀ entry ∈ entries, R entry.2 entry.2 := by
  constructor
  · intro h entry hentry
    have hget := get?_of_mem hkeys hentry
    exact h.values entry.1 entry.2 entry.2 hget hget
  · intro h
    refine ⟨⟨hkeys, .refl _⟩, ?_⟩
    intro k v w hv hw
    rw [hv] at hw
    cases hw
    exact h (k, v) (mem_of_get? hv)

/-- A value is equal to itself exactly when it shows no NaN outside of nodes. -/
theorem Value.equals_self_iff (hv : v.Over heap) : v.equals v = true ↔ ¬ v.ShowsNaN := by
  induction v using Value.induction with
  | primitive v hprimitive =>
      cases v with
      | null | bool | int | string =>
          refine iff_of_true (by simp [equals]) ?_
          rintro ⟨⟩
      | float x => simp [equals, Binary64.equals, showsNaN_float_iff]
      | node | list | map => cases hprimitive
  | node handle a ih =>
      -- The handle is the same, so the content is not looked at.
      refine iff_of_true (by simp [equals]) ?_
      rintro ⟨⟩
  | list items ih =>
      rw [equals, listEquals_iff, List.forall₂_same, showsNaN_list_iff, not_exists]
      simp only [not_and]
      exact forall₂_congr fun item hitem => ih item hitem (hv.of_list item hitem)
  | map entries ih =>
      obtain ⟨hkeys, hvalues⟩ := hv.of_map
      rw [equals, entriesEqual_iff hkeys, Entries.relatedByKey_self hkeys,
        showsNaN_map_iff, not_exists]
      simp only [not_and]
      exact forall₂_congr fun entry hentry => ih entry hentry (hvalues entry hentry)

end Over

end ObjectGraph
