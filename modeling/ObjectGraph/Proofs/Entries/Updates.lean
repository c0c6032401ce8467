import Mathlib.Data.List.Nodup
import ObjectGraph.Proofs.Entries.Sorted

/-!
# Entries after a change

What writing and dropping entries does to the keys and to the value under a key, and what a list
read as entries becomes when each key is taken once: `foldl_insertNew` says that the first element
of every key is kept.
-/

namespace ObjectGraph.Entries

universe u v

variable {κ : Type u} {α : Type v}

@[simp] theorem keys_nil : keys ([] : List (κ × α)) = [] := rfl

@[simp] theorem keys_cons (k : κ) (a : α) (rest : List (κ × α)) :
    keys ((k, a) :: rest) = k :: keys rest := rfl

@[simp] theorem keys_append (xs ys : List (κ × α)) : keys (xs ++ ys) = keys xs ++ keys ys := by
  simp [keys]

/-- Elements as entries under their own keys. -/
def keyed (key : α → κ) (elements : List α) : List (κ × α) :=
  elements.map fun a => (key a, a)

@[simp] theorem values_keyed (key : α → κ) (elements : List α) :
    values (keyed key elements) = elements := by
  simp [values, keyed, Function.comp_def]

@[simp] theorem keys_keyed (key : α → κ) (elements : List α) :
    keys (keyed key elements) = elements.map key := by
  simp [keys, keyed, Function.comp_def]

theorem ne_of_not_mem_keys {k : κ} {entries : List (κ × α)} (h : k ∉ keys entries) :
    ∀ entry ∈ entries, entry.1 ≠ k := by
  rintro ⟨j, a⟩ hentry rfl
  exact h (mem_keys_of_mem hentry)

section Keyed

variable [DecidableEq κ]

theorem get?_eq_none_iff {k : κ} {entries : List (κ × α)} :
    get? k entries = none ↔ k ∉ keys entries := by
  rw [← contains_iff_mem_keys, contains, Option.not_isSome_iff_eq_none]

theorem mem_keys_iff_exists_get? {k : κ} {entries : List (κ × α)} :
    k ∈ keys entries ↔ ∃ a, get? k entries = some a := by
  rw [← contains_iff_mem_keys, contains, Option.isSome_iff_exists]

/-- What is found in two lists is found in the first, or else in the second. -/
theorem get?_append (k : κ) (xs ys : List (κ × α)) :
    get? k (xs ++ ys) = (get? k xs).or (get? k ys) := by
  induction xs with
  | nil => rfl
  | cons entry rest ih =>
      obtain ⟨k', a⟩ := entry
      rw [List.cons_append, get?_cons, get?_cons, ih]
      split <;> rfl

/-- Reading where every key has the same value. -/
theorem get?_map_pair (k : κ) (a : α) (ks : List κ) :
    get? k (ks.map fun key => (key, a)) = if k ∈ ks then some a else none := by
  induction ks with
  | nil => rfl
  | cons key rest ih =>
      rw [List.map_cons, get?_cons, ih]
      by_cases hk : key = k
      · rw [if_pos hk, if_pos (hk ▸ List.mem_cons_self)]
      · simp [hk, Ne.symm hk]

/-! ## Writing -/

/-- Writing a key adds it, if anything. -/
theorem mem_keys_insert {k j : κ} {a : α} {entries : List (κ × α)} :
    j ∈ keys (insert k a entries) ↔ j = k ∨ j ∈ keys entries := by
  rw [keys_insert]
  split
  · rename_i hmem
    constructor
    · exact Or.inr
    · rintro (rfl | hj)
      · exact hmem
      · exact hj
  · rw [List.mem_append, List.mem_singleton, or_comm]

/-- A new key comes last. -/
theorem insert_of_not_mem {k : κ} {entries : List (κ × α)} (h : k ∉ keys entries) (a : α) :
    insert k a entries = entries ++ [(k, a)] := by
  induction entries with
  | nil => rfl
  | cons entry rest ih =>
      rw [keys_cons, List.mem_cons, not_or] at h
      rw [insert, if_neg (Ne.symm h.1), ih h.2, List.cons_append]

theorem keys_insert_of_mem {k : κ} {entries : List (κ × α)} (h : k ∈ keys entries) (a : α) :
    keys (insert k a entries) = keys entries := by
  rw [keys_insert, if_pos h]

/-- Writing keeps each key once. -/
theorem nodup_keys_insert {entries : List (κ × α)} (h : (keys entries).Nodup) (k : κ) (a : α) :
    (keys (insert k a entries)).Nodup := by
  rw [keys_insert]
  split
  · exact h
  · rename_i hk
    exact h.append (List.nodup_singleton k) (List.disjoint_singleton.2 hk)

/-- A write leaves the entries under the other keys. -/
theorem mem_insert_of_ne {k j : κ} (hne : j ≠ k) (a b : α) {entries : List (κ × α)} :
    (j, b) ∈ insert k a entries ↔ (j, b) ∈ entries := by
  have hfirst : ∀ c, (j, b) ≠ (k, c) := fun c heq => hne (Prod.mk.inj heq).1
  induction entries with
  | nil => simp [insert, hfirst]
  | cons entry rest ih =>
      obtain ⟨k', a'⟩ := entry
      rw [insert]
      split
      · rename_i hk
        subst hk
        simp [hfirst]
      · simp only [List.mem_cons, ih]

/-- Replacing the value under a key that is not there. -/
theorem map_of_not_mem {k : κ} {entries : List (κ × α)} (h : k ∉ keys entries) (a : α) :
    (entries.map fun entry => (entry.1, if entry.1 = k then a else entry.2)) = entries := by
  have hkept : ∀ entry ∈ entries, (entry.1, if entry.1 = k then a else entry.2) = entry := by
    intro entry hentry
    rw [if_neg (ne_of_not_mem_keys h entry hentry)]
  rw [List.map_congr_left hkept, List.map_id']

/-- With distinct keys, writing a key that is there replaces its value in place. -/
theorem insert_eq_map {k : κ} {entries : List (κ × α)} (hkeys : (keys entries).Nodup)
    (h : k ∈ keys entries) (a : α) :
    insert k a entries =
      entries.map fun entry => (entry.1, if entry.1 = k then a else entry.2) := by
  induction entries with
  | nil => cases h
  | cons entry rest ih =>
      obtain ⟨k', a'⟩ := entry
      rw [keys_cons, List.nodup_cons] at hkeys
      rw [insert, List.map_cons]
      split
      · rename_i hk
        subst hk
        rw [map_of_not_mem hkeys.1]
      · rename_i hk
        rw [keys_cons, List.mem_cons] at h
        rw [ih hkeys.2 (h.resolve_left (Ne.symm hk))]

/-! ## Dropping -/

/-- Dropping a key that is not there. -/
theorem filter_of_not_mem {k : κ} {entries : List (κ × α)} (h : k ∉ keys entries) :
    (entries.filter fun entry => entry.1 ≠ k) = entries := by
  apply List.filter_eq_self.2
  intro entry hentry
  exact decide_eq_true (ne_of_not_mem_keys h entry hentry)

/-- With distinct keys, dropping a key leaves the entries under the other keys as they stand. -/
theorem erase_eq_filter {entries : List (κ × α)} (h : (keys entries).Nodup) (k : κ) :
    erase k entries = entries.filter fun entry => entry.1 ≠ k := by
  induction entries with
  | nil => rfl
  | cons entry rest ih =>
      obtain ⟨k', a⟩ := entry
      rw [keys_cons, List.nodup_cons] at h
      rw [erase]
      split
      · rename_i hk
        subst hk
        rw [List.filter_cons_of_neg (by simp), filter_of_not_mem h.1]
      · rename_i hk
        rw [List.filter_cons_of_pos (by simpa using hk), ih h.2]

/-- Erasing a key takes it out of the keys. -/
theorem keys_erase (k : κ) (entries : List (κ × α)) :
    keys (erase k entries) = (keys entries).erase k := by
  induction entries with
  | nil => rfl
  | cons entry rest ih =>
      obtain ⟨k', a⟩ := entry
      rw [erase, keys_cons, List.erase_cons]
      by_cases hk : k' = k
      · simp [hk]
      · simp [hk, ih]

theorem nodup_keys_erase {entries : List (κ × α)} (h : (keys entries).Nodup) (k : κ) :
    (keys (erase k entries)).Nodup := by
  rw [keys_erase]
  exact h.erase k

/-- Nothing is found under an erased key, and the others are found as before. -/
theorem get?_erase {entries : List (κ × α)} (h : (keys entries).Nodup) (k j : κ) :
    get? j (erase k entries) = if k = j then none else get? j entries := by
  induction entries with
  | nil => simp [erase]
  | cons entry rest ih =>
      obtain ⟨k', a⟩ := entry
      rw [keys_cons, List.nodup_cons] at h
      rw [erase]
      by_cases hk : k' = k
      · subst hk
        rw [if_pos rfl, get?_cons]
        split
        · rename_i hj
          subst hj
          exact get?_eq_none_iff.2 h.1
        · rfl
      · rw [if_neg hk, get?_cons, get?_cons, ih h.2]
        by_cases hj : k' = j
        · subst hj
          rw [if_pos rfl, if_pos rfl, if_neg (Ne.symm hk)]
        · rw [if_neg hj, if_neg hj]

/-! ## Keeping the first of each key -/

theorem insertNew_of_mem {k : κ} {entries : List (κ × α)} (h : k ∈ keys entries) (a : α) :
    insertNew k a entries = entries := by
  rw [insertNew, if_pos (contains_iff_mem_keys k entries |>.2 h)]

theorem insertNew_of_not_mem {k : κ} {entries : List (κ × α)} (h : k ∉ keys entries) (a : α) :
    insertNew k a entries = entries ++ [(k, a)] := by
  rw [insertNew, if_neg fun hmem => h ((contains_iff_mem_keys k entries).1 hmem)]

/-- What is found stays when a new key is written. -/
theorem get?_insertNew (k j : κ) (a : α) (entries : List (κ × α)) :
    get? j (insertNew k a entries) = (get? j entries).or (if k = j then some a else none) := by
  by_cases hk : k ∈ keys entries
  · rw [insertNew_of_mem hk]
    split
    · rename_i hj
      subst hj
      obtain ⟨b, hb⟩ := mem_keys_iff_exists_get?.1 hk
      rw [hb, Option.some_or]
    · rw [Option.or_none]
  · rw [insertNew_of_not_mem hk, get?_append, get?_cons, get?_nil]

theorem get?_keyed (key : α → κ) (k : κ) (elements : List α) :
    get? k (keyed key elements) = elements.find? fun a => key a == k := by
  induction elements with
  | nil => rfl
  | cons a rest ih =>
      rw [keyed, List.map_cons, get?_cons, List.find?_cons, ← keyed, ih]
      by_cases hk : key a = k
      · rw [if_pos hk, beq_iff_eq.2 hk]
      · rw [if_neg hk, beq_eq_false_iff_ne.2 hk]

/-- Writing elements under keys that are still free keeps the first element of every key. -/
theorem foldl_insertNew (key : α → κ) (elements : List α) (entries : List (κ × α)) :
    elements.foldl (fun known a => insertNew (key a) a known) entries =
      entries ++ keyed key ((elements.filter fun a => key a ∉ keys entries).eraseDupsBy
        fun a b => key a == key b) := by
  induction elements generalizing entries with
  | nil => simp [keyed]
  | cons a rest ih =>
      rw [List.foldl_cons, ih]
      by_cases ha : key a ∈ keys entries
      · simp [insertNew_of_mem ha, ha]
      · -- Of the rest, the new entry takes away those that have the key of the first element.
        simp [insertNew_of_not_mem ha, ha, keyed, List.eraseDupsBy_cons, List.filter_filter,
          and_comm, beq_eq_false_iff_ne]

theorem nodup_keys_insertNew {entries : List (κ × α)} (h : (keys entries).Nodup) (k : κ) (a : α) :
    (keys (insertNew k a entries)).Nodup := by
  by_cases hk : k ∈ keys entries
  · rwa [insertNew_of_mem hk]
  · rw [insertNew_of_not_mem hk, keys_append]
    exact h.append (List.nodup_singleton k) (List.disjoint_singleton.2 hk)

theorem nodup_keys_foldl_insertNew (key : α → κ) (elements : List α) {entries : List (κ × α)}
    (h : (keys entries).Nodup) :
    (keys (elements.foldl (fun known a => insertNew (key a) a known) entries)).Nodup := by
  induction elements generalizing entries with
  | nil => exact h
  | cons a rest ih => exact ih (nodup_keys_insertNew h (key a) a)

theorem nodup_map_eraseDupsBy (key : α → κ) (elements : List α) :
    ((elements.eraseDupsBy fun a b => key a == key b).map key).Nodup := by
  have hempty : (keys ([] : List (κ × α))).Nodup := List.nodup_nil
  have h := nodup_keys_foldl_insertNew key elements hempty
  rw [foldl_insertNew] at h
  simpa using h

/-- Where all keys are different, keeping the first element of each key keeps all. -/
theorem eraseDupsBy_of_nodup (key : α → κ) {elements : List α} (h : (elements.map key).Nodup) :
    (elements.eraseDupsBy fun a b => key a == key b) = elements := by
  induction elements with
  | nil => rfl
  | cons a rest ih =>
      rw [List.map_cons, List.nodup_cons] at h
      have hkept : (rest.filter fun b => (key b == key a) = false) = rest := by
        apply List.filter_eq_self.2
        intro b hb
        have hne : key b ≠ key a := fun heq => h.1 (heq ▸ List.mem_map_of_mem hb)
        exact decide_eq_true (beq_eq_false_iff_ne.2 hne)
      rw [List.eraseDupsBy_cons, hkept, ih h.2]

theorem nodup_eraseDups (elements : List κ) : elements.eraseDups.Nodup := by
  have h := nodup_map_eraseDupsBy id elements
  rwa [List.map_id] at h

/-- Writing under keys that are still free appends those keys, each once. -/
theorem keys_foldl_insertNew {β : Type v} (key : β → κ) (value : β → α) (elements : List β)
    (entries : List (κ × α)) :
    keys (elements.foldl (fun known b => insertNew (key b) (value b) known) entries) =
      keys entries ++ ((elements.map key).filter fun k => k ∉ keys entries).eraseDups := by
  induction elements generalizing entries with
  | nil => simp
  | cons b rest ih =>
      rw [List.foldl_cons, ih]
      by_cases hb : key b ∈ keys entries
      · simp [insertNew_of_mem hb, hb]
      · -- The new key is not free any more for those that follow.
        simp [insertNew_of_not_mem hb, hb, List.eraseDups_cons, List.filter_filter, and_comm,
          Bool.beq_eq_decide_eq]

end Keyed

/-- Where no two elements of a list pass a test, a search by it finds the one that does. -/
theorem find?_eq_some_iff_of_unique {test : α → Bool} {elements : List α} {a : α}
    (h : ∀ b ∈ elements, ∀ c ∈ elements, test b = true → test c = true → b = c) :
    elements.find? test = some a ↔ a ∈ elements ∧ test a = true := by
  constructor
  · intro hfound
    exact ⟨List.mem_of_find?_eq_some hfound, List.find?_some hfound⟩
  · rintro ⟨hmem, htest⟩
    cases hfound : elements.find? test with
    | none => exact absurd htest (List.find?_eq_none.1 hfound a hmem)
    | some b => rw [h b (List.mem_of_find?_eq_some hfound) a hmem (List.find?_some hfound) htest]

/-- A search by key is by a test that no two elements pass, if no two have the same key. -/
theorem unique_of_nodup_map {κ : Type} [BEq κ] [LawfulBEq κ] {key : α → κ} {elements : List α}
    (h : (elements.map key).Nodup) (k : κ) :
    ∀ a ∈ elements, ∀ b ∈ elements, (key a == k) = true → (key b == k) = true → a = b := by
  intro a ha b hb hkey hkey'
  exact List.inj_on_of_nodup_map h ha hb ((beq_iff_eq.1 hkey).trans (beq_iff_eq.1 hkey').symm)

/-- Where no two elements pass a test, the order of the list has no part in a search by it. -/
theorem find?_congr_of_unique {test : α → Bool} {xs ys : List α} (hmem : ∀ a, a ∈ xs ↔ a ∈ ys)
    (h : ∀ a ∈ xs, ∀ b ∈ xs, test a = true → test b = true → a = b) :
    xs.find? test = ys.find? test := by
  have h' : ∀ a ∈ ys, ∀ b ∈ ys, test a = true → test b = true → a = b :=
    fun a ha b hb => h a ((hmem a).2 ha) b ((hmem b).2 hb)
  apply Option.ext
  intro a
  rw [find?_eq_some_iff_of_unique h, find?_eq_some_iff_of_unique h', hmem]

end ObjectGraph.Entries

namespace ObjectGraph

theorem exists_related_of_mem {α β : Type} {R : α → β → Prop} {xs : List α} {ys : List β}
    (h : List.Forall₂ R xs ys) {y : β} (hy : y ∈ ys) : ∃ x ∈ xs, R x y := by
  induction h with
  | nil => cases hy
  | cons hxy _ ih =>
      rcases List.mem_cons.1 hy with rfl | hrest
      · exact ⟨_, List.mem_cons_self, hxy⟩
      · obtain ⟨x, hx, hrel⟩ := ih hrest
        exact ⟨x, List.mem_cons_of_mem _ hx, hrel⟩

end ObjectGraph
