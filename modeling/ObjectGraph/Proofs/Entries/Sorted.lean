import ObjectGraph.Entries

/-!
# Entries in key order

Sorting entries keeps, of every key, the value that stands last. Two lists in increasing key order
with the same lookups are the same list (`Increasing.ext`), and what is looked up in sorted entries
is the last value of the key (`get?_sorted`), so sorting forgets the order of the entries.
-/

namespace ObjectGraph.Entries

universe u v

theorem mem_keys_of_mem {κ : Type u} {α : Type v} {k : κ} {a : α} {entries : List (κ × α)}
    (h : (k, a) ∈ entries) : k ∈ keys entries :=
  List.mem_map.2 ⟨(k, a), h, rfl⟩

section Keyed

variable {κ : Type u} {α : Type v} [DecidableEq κ]

/-- The values of all entries under a key, in entry order. -/
def valuesAt (k : κ) (entries : List (κ × α)) : List α :=
  (entries.filter fun entry => entry.1 = k).map Prod.snd

@[simp] theorem valuesAt_nil (k : κ) : valuesAt k ([] : List (κ × α)) = [] := rfl

theorem valuesAt_cons (k k' : κ) (a : α) (rest : List (κ × α)) :
    valuesAt k ((k', a) :: rest) = if k' = k then a :: valuesAt k rest else valuesAt k rest := by
  by_cases h : k' = k <;> simp [valuesAt, h]

theorem valuesAt_append (k : κ) (xs ys : List (κ × α)) :
    valuesAt k (xs ++ ys) = valuesAt k xs ++ valuesAt k ys := by
  simp [valuesAt]

/-- Entries chosen by their keys keep all the values of a key or none of them. -/
theorem valuesAt_filter (p : κ → Bool) (k : κ) (entries : List (κ × α)) :
    valuesAt k (entries.filter fun entry => p entry.1) =
      if p k = true then valuesAt k entries else [] := by
  induction entries with
  | nil => simp
  | cons entry rest ih =>
      obtain ⟨k', a⟩ := entry
      by_cases hk : k' = k
      · subst hk
        by_cases hp : p k' = true <;> simp [valuesAt_cons, hp, ih]
      · by_cases hp' : p k' = true <;> simp [valuesAt_cons, hk, hp', ih]

theorem mem_of_mem_valuesAt {k : κ} {a : α} {entries : List (κ × α)} (h : a ∈ valuesAt k entries) :
    (k, a) ∈ entries := by
  simp only [valuesAt, List.mem_map, List.mem_filter, decide_eq_true_eq] at h
  obtain ⟨entry, ⟨hmem, rfl⟩, rfl⟩ := h
  exact hmem

theorem mem_of_get? {k : κ} {a : α} {entries : List (κ × α)} (h : get? k entries = some a) :
    (k, a) ∈ entries := by
  induction entries with
  | nil => cases h
  | cons entry rest ih =>
      obtain ⟨k', a'⟩ := entry
      rw [get?_cons] at h
      split at h
      · rename_i heq
        cases h
        subst heq
        exact List.mem_cons_self
      · exact List.mem_cons_of_mem _ (ih h)

/-- With distinct keys every entry is found under its key. -/
theorem get?_of_mem {k : κ} {a : α} {entries : List (κ × α)} (hkeys : (keys entries).Nodup)
    (h : (k, a) ∈ entries) : get? k entries = some a := by
  induction entries with
  | nil => cases h
  | cons entry rest ih =>
      obtain ⟨k', a'⟩ := entry
      rw [keys, List.map_cons, List.nodup_cons] at hkeys
      rw [get?_cons]
      rcases List.mem_cons.1 h with heq | hmem
      · cases heq
        exact if_pos rfl
      · have hne : k' ≠ k := by
          rintro rfl
          exact hkeys.1 (mem_keys_of_mem hmem)
        rw [if_neg hne]
        exact ih hkeys.2 hmem

/-- With distinct keys there is at most one value under each of them. -/
theorem valuesAt_of_nodup {k : κ} {entries : List (κ × α)} (hkeys : (keys entries).Nodup) :
    valuesAt k entries = (get? k entries).toList := by
  induction entries with
  | nil => rfl
  | cons entry rest ih =>
      obtain ⟨k', a⟩ := entry
      rw [keys, List.map_cons, List.nodup_cons] at hkeys
      rw [valuesAt_cons, get?_cons]
      split
      · rename_i heq
        subst heq
        have hnone : get? k' rest = none := by
          rw [Option.eq_none_iff_forall_not_mem]
          intro b hb
          exact hkeys.1 (mem_keys_of_mem (mem_of_get? hb))
        rw [ih hkeys.2, hnone]
        rfl
      · exact ih hkeys.2

end Keyed

section Map

variable {κ κ' : Type u} {α β : Type v}

theorem keys_map (f : κ → κ') (g : α → β) (entries : List (κ × α)) :
    keys (entries.map fun entry => (f entry.1, g entry.2)) = (keys entries).map f := by
  rw [keys, keys, List.map_map, List.map_map]
  rfl

/-- Reading where keys and values are replaced and no two keys become one. -/
theorem get?_map [DecidableEq κ] [DecidableEq κ'] {f : κ → κ'} (hf : Function.Injective f)
    (g : α → β) (k : κ) (entries : List (κ × α)) :
    get? (f k) (entries.map fun entry => (f entry.1, g entry.2)) = (get? k entries).map g := by
  induction entries with
  | nil => rfl
  | cons entry rest ih =>
      obtain ⟨k', a⟩ := entry
      rw [List.map_cons, get?_cons, get?_cons]
      by_cases hk : k' = k
      · rw [if_pos hk, if_pos (congrArg f hk), Option.map_some]
      · rw [if_neg hk, if_neg (hf.ne hk), ih]

section Congruence

variable {γ : Type v} [DecidableEq κ] {xs : List (κ × α)} {ys : List (κ × β)}
  {f : α → γ} {g : β → γ}

/-- Where the same is found under a key, the key is in both lists or in none. -/
theorem mem_keys_iff_of_map_get? {k : κ} (h : (get? k xs).map f = (get? k ys).map g) :
    k ∈ keys xs ↔ k ∈ keys ys := by
  have hsome := congrArg Option.isSome h
  rw [Option.isSome_map, Option.isSome_map] at hsome
  rw [← contains_iff_mem_keys, ← contains_iff_mem_keys, contains, contains, hsome]

/-- Lists with the same keys agree under a key if the values found there do. -/
theorem map_get?_congr (hkeys : keys xs = keys ys) {k : κ}
    (h : ∀ a b, get? k xs = some a → get? k ys = some b → f a = g b) :
    (get? k xs).map f = (get? k ys).map g := by
  have hsame : contains k xs = true ↔ contains k ys = true := by
    rw [contains_iff_mem_keys, contains_iff_mem_keys, hkeys]
  rw [contains, contains] at hsame
  cases hx : get? k xs with
  | none =>
      rw [hx] at hsame
      rw [Option.not_isSome_iff_eq_none.1 (mt hsame.2 Bool.false_ne_true)]
      rfl
  | some a =>
      rw [hx] at hsame
      obtain ⟨b, hy⟩ := Option.isSome_iff_exists.1 (hsame.1 rfl)
      rw [hy, Option.map_some, Option.map_some, h a b hx hy]

end Congruence

end Map

section Ordered

variable {α : Type v}

/-- The keys increase from entry to entry. -/
def Increasing (entries : List (String × α)) : Prop :=
  entries.Pairwise fun a b => a.1 < b.1

theorem Increasing.nodup {entries : List (String × α)} (h : Increasing entries) :
    entries.Nodup := by
  apply h.imp
  rintro a b hlt rfl
  exact String.lt_irrefl _ hlt

/-- Increasing entries have each key once. -/
theorem Increasing.nodup_keys {entries : List (String × α)} (h : Increasing entries) :
    (keys entries).Nodup := by
  rw [keys, List.Nodup, List.pairwise_map]
  apply h.imp
  intro a b hlt heq
  rw [heq] at hlt
  exact String.lt_irrefl _ hlt

theorem Increasing.map {β : Type v} {entries : List (String × α)} (h : Increasing entries)
    (g : α → β) : Increasing (entries.map fun entry => (entry.1, g entry.2)) :=
  List.pairwise_map.2 h

/-- Placing an entry changes what is found under its key only. -/
theorem get?_place (k j : String) (a : α) (entries : List (String × α)) :
    get? j (place k a entries) = if k = j then some a else get? j entries := by
  induction entries with
  | nil => rfl
  | cons entry rest ih =>
      obtain ⟨k', a'⟩ := entry
      rw [place]
      split
      · rw [get?_cons]
      · split
        · rename_i heq
          subst heq
          by_cases hj : k = j <;> simp [get?_cons, hj]
        · rename_i hne
          by_cases hj : k = j
          · subst hj
            simp [get?_cons, Ne.symm hne, ih]
          · simp [get?_cons, hj, ih]

/-- Placing an entry adds its key at most. -/
theorem mem_keys_place {k j : String} {a : α} {entries : List (String × α)} :
    j ∈ keys (place k a entries) → j = k ∨ j ∈ keys entries := by
  rw [← contains_iff_mem_keys, ← contains_iff_mem_keys, contains, contains, get?_place]
  by_cases h : k = j
  · exact fun _ => Or.inl h.symm
  · rw [if_neg h]
    exact Or.inr

/-- Placing an entry keeps the order. -/
theorem Increasing.place {k : String} {a : α} {entries : List (String × α)}
    (h : Increasing entries) : Increasing (place k a entries) := by
  induction entries with
  | nil => exact List.pairwise_singleton _ _
  | cons entry rest ih =>
      obtain ⟨k', a'⟩ := entry
      obtain ⟨hfirst, hrest⟩ := List.pairwise_cons.1 h
      rw [Entries.place]
      split
      · rename_i hlt
        refine List.pairwise_cons.2 ⟨?_, h⟩
        intro entry hmem
        rcases List.mem_cons.1 hmem with rfl | hmem
        · exact hlt
        · exact String.lt_trans hlt (hfirst entry hmem)
      · rename_i hle
        split
        · rename_i heq
          subst heq
          exact List.pairwise_cons.2 ⟨hfirst, hrest⟩
        · rename_i hne
          -- The new key is beyond the first one, so it stays behind it wherever it is placed.
          have hlt : k' < k := by
            rcases Decidable.em (k' < k) with hlt | hnot
            · exact hlt
            · exact absurd (String.le_antisymm (String.not_lt.1 hnot) (String.not_lt.1 hle)) hne
          refine List.pairwise_cons.2 ⟨?_, ih hrest⟩
          intro entry hmem
          rcases mem_keys_place (mem_keys_of_mem (a := entry.2) hmem) with heq | hmem
          · rw [heq]
            exact hlt
          · obtain ⟨other, hother, heq⟩ := List.mem_map.1 hmem
            rw [← heq]
            exact hfirst other hother

/-- Sorted entries stand in increasing order of their keys. -/
theorem increasing_sorted (entries : List (String × α)) : Increasing (sorted entries) := by
  -- The fold starts anywhere in the induction, as long as what is written so far increases.
  suffices h : ∀ written : List (String × α), Increasing written →
      Increasing (entries.foldl (fun written entry => place entry.1 entry.2 written) written) from
    h [] List.Pairwise.nil
  induction entries with
  | nil => exact fun written h => h
  | cons entry rest ih => exact fun written h => ih _ h.place

/-- Sorted entries hold the last value of every key. -/
theorem get?_sorted (k : String) (entries : List (String × α)) :
    get? k (sorted entries) = (valuesAt k entries).getLast? := by
  -- What is written so far counts only for keys that do not come again.
  suffices h : ∀ written : List (String × α),
      get? k (entries.foldl (fun written entry => place entry.1 entry.2 written) written) =
        (valuesAt k entries).getLast?.or (get? k written) by
    have hnil := h []
    rwa [get?_nil, Option.or_none] at hnil
  induction entries with
  | nil => intro written; rfl
  | cons entry rest ih =>
      intro written
      obtain ⟨k', a⟩ := entry
      rw [List.foldl_cons, ih, get?_place, valuesAt_cons]
      by_cases hk : k' = k
      · rw [if_pos hk, if_pos hk, List.getLast?_cons]
        cases (valuesAt k rest).getLast? <;> rfl
      · rw [if_neg hk, if_neg hk]

theorem mem_of_mem_sorted {entry : String × α} {entries : List (String × α)}
    (h : entry ∈ sorted entries) : entry ∈ entries := by
  have hget := get?_of_mem (increasing_sorted entries).nodup_keys h
  rw [get?_sorted] at hget
  exact mem_of_mem_valuesAt (List.mem_of_getLast? hget)

/-- Sorting keeps every key. -/
theorem mem_keys_sorted {k : String} {entries : List (String × α)} :
    k ∈ keys (sorted entries) ↔ k ∈ keys entries := by
  constructor
  · intro h
    obtain ⟨entry, hmem, rfl⟩ := List.mem_map.1 h
    exact mem_keys_of_mem (mem_of_mem_sorted hmem)
  · intro h
    obtain ⟨entry, hmem, rfl⟩ := List.mem_map.1 h
    have hvalue : entry.2 ∈ valuesAt entry.1 entries :=
      List.mem_map_of_mem (List.mem_filter.2 ⟨hmem, decide_eq_true rfl⟩)
    rw [← contains_iff_mem_keys, contains, get?_sorted,
      List.getLast?_eq_some_getLast (List.ne_nil_of_mem hvalue), Option.isSome_some]

theorem get?_sorted_of_nodup {k : String} {entries : List (String × α)} (h : (keys entries).Nodup) :
    get? k (sorted entries) = get? k entries := by
  rw [get?_sorted, valuesAt_of_nodup h]
  cases get? k entries <;> rfl

/-- Of two lists sorted together, the second one counts where it has the key. -/
theorem get?_sorted_append (k : String) (xs ys : List (String × α)) :
    get? k (sorted (xs ++ ys)) = (get? k (sorted ys)).or (get? k (sorted xs)) := by
  rw [get?_sorted, get?_sorted, get?_sorted, valuesAt_append, List.getLast?_append]

/-- Texts that increase are determined by which ones there are. -/
theorem eq_of_pairwise_lt {xs ys : List String} (hx : xs.Pairwise (· < ·))
    (hy : ys.Pairwise (· < ·)) (h : ∀ k, k ∈ xs ↔ k ∈ ys) : xs = ys := by
  have hnodup : ∀ {l : List String}, l.Pairwise (· < ·) → l.Nodup := by
    intro l hl
    apply hl.imp
    rintro a b hlt rfl
    exact String.lt_irrefl _ hlt
  have hperm : xs.Perm ys := (List.perm_ext_iff_of_nodup (hnodup hx) (hnodup hy)).2 h
  refine hperm.eq_of_pairwise ?_ hx hy
  intro a b _ _ hab hba
  exact absurd hba (String.lt_asymm hab)

/-- Keys that increase are determined by which ones there are. -/
theorem Increasing.keys_eq {β : Type v} {xs : List (String × α)} {ys : List (String × β)}
    (hx : Increasing xs) (hy : Increasing ys) (h : ∀ k, k ∈ keys xs ↔ k ∈ keys ys) :
    keys xs = keys ys :=
  eq_of_pairwise_lt (List.pairwise_map.2 hx) (List.pairwise_map.2 hy) h

/-- Entries in increasing key order are determined by what is found under the keys. -/
theorem Increasing.ext {xs ys : List (String × α)} (hx : Increasing xs) (hy : Increasing ys)
    (h : ∀ k, get? k xs = get? k ys) : xs = ys := by
  have hmem : ∀ entry, entry ∈ xs ↔ entry ∈ ys := by
    rintro ⟨k, a⟩
    constructor
    · intro hin
      exact mem_of_get? ((h k).symm.trans (get?_of_mem hx.nodup_keys hin))
    · intro hin
      exact mem_of_get? ((h k).trans (get?_of_mem hy.nodup_keys hin))
  have hperm : xs.Perm ys :=
    (List.perm_ext_iff_of_nodup hx.nodup hy.nodup).2 hmem
  -- Two rearrangements of one list that both increase strictly are the same.
  refine hperm.eq_of_pairwise ?_ hx hy
  intro a b _ _ hab hba
  exact absurd hba (String.lt_asymm hab)

theorem sorted_eq_self {entries : List (String × α)} (h : Increasing entries) :
    sorted entries = entries := by
  apply (increasing_sorted entries).ext h
  intro k
  exact get?_sorted_of_nodup h.nodup_keys

end Ordered

end ObjectGraph.Entries
