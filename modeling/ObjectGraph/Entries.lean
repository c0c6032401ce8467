/-!
# Insertion-ordered entries

A list of key and value pairs read as a map. The first entry of a key counts; writing a key that is
already there replaces its value in place, and a new key goes to the end, so the order of the keys
is the order in which they were first written. `place` is the second way to write: it keeps text
keys in increasing order.
-/

namespace ObjectGraph.Entries

universe u v

variable {κ : Type u} {α : Type v}

/-- Keys in entry order. -/
def keys (entries : List (κ × α)) : List κ :=
  entries.map Prod.fst

/-- Values in entry order. -/
def values (entries : List (κ × α)) : List α :=
  entries.map Prod.snd

section Keyed

variable [DecidableEq κ]

/-- Value of the first entry under `k`. -/
def get? (k : κ) : List (κ × α) → Option α
  | [] => none
  | (k', a) :: rest => if k' = k then some a else get? k rest

/-- Whether some entry has the key `k`. -/
def contains (k : κ) (entries : List (κ × α)) : Bool :=
  (get? k entries).isSome

/-- Replaces the value under `k` in place, or appends a new entry. -/
def insert (k : κ) (a : α) : List (κ × α) → List (κ × α)
  | [] => [(k, a)]
  | (k', a') :: rest => if k' = k then (k, a) :: rest else (k', a') :: insert k a rest

/-- Appends an entry unless its key is already there. -/
def insertNew (k : κ) (a : α) (entries : List (κ × α)) : List (κ × α) :=
  if contains k entries then entries else entries ++ [(k, a)]

/-- Drops the first entry under `k`; the others keep their order. -/
def erase (k : κ) : List (κ × α) → List (κ × α)
  | [] => []
  | (k', a) :: rest => if k' = k then rest else (k', a) :: erase k rest

/-- Entries written one after the other: a repeated key keeps its first position and its last
value. -/
def ofList (entries : List (κ × α)) : List (κ × α) :=
  entries.foldl (fun written entry => insert entry.1 entry.2 written) []

@[simp] theorem get?_nil (k : κ) : get? k ([] : List (κ × α)) = none := rfl

theorem get?_cons (k k' : κ) (a : α) (rest : List (κ × α)) :
    get? k ((k', a) :: rest) = if k' = k then some a else get? k rest := rfl

/-- Reading after a write: the written key has the new value, every other key its old one. -/
theorem get?_insert (k j : κ) (a : α) (entries : List (κ × α)) :
    get? j (insert k a entries) = if k = j then some a else get? j entries := by
  induction entries with
  | nil => rfl
  | cons entry rest ih =>
      obtain ⟨k', a'⟩ := entry
      by_cases h : k' = k
      · subst h
        by_cases hj : k' = j <;> simp [insert, get?, hj]
      · by_cases hj : k' = j
        · subst hj
          simp [insert, get?, h, Ne.symm h]
        · simp [insert, get?, h, hj, ih]

/-- A key is present exactly when it is one of the keys. -/
theorem contains_iff_mem_keys (k : κ) (entries : List (κ × α)) :
    contains k entries = true ↔ k ∈ keys entries := by
  induction entries with
  | nil => simp [contains, keys]
  | cons entry rest ih =>
      obtain ⟨k', a⟩ := entry
      simp only [contains, keys] at ih
      by_cases h : k' = k
      · simp [contains, keys, get?, h]
      · simp [contains, keys, get?, h, Ne.symm h, ih]

/-- A write keeps the keys and their order, and appends a key that was not there. -/
theorem keys_insert (k : κ) (a : α) (entries : List (κ × α)) :
    keys (insert k a entries) = if k ∈ keys entries then keys entries else keys entries ++ [k] := by
  induction entries with
  | nil => simp [insert, keys]
  | cons entry rest ih =>
      obtain ⟨k', a'⟩ := entry
      by_cases h : k' = k
      · subst h
        simp [insert, keys]
      · by_cases hm : k ∈ rest.map Prod.fst
        · simp only [keys, hm, if_true] at ih
          simp [insert, keys, h, hm, ih]
        · simp only [keys, hm, if_false] at ih
          simp [insert, keys, h, Ne.symm h, hm, ih]

end Keyed

/-- Writes a text key so that the keys stay in increasing order; an entry of the same key is
replaced. -/
def place (k : String) (a : α) : List (String × α) → List (String × α)
  | [] => [(k, a)]
  | (k', a') :: rest =>
      if k < k' then (k, a) :: (k', a') :: rest
      else if k = k' then (k, a) :: rest
      else (k', a') :: place k a rest

/-- Entries in increasing order of their keys; of equal keys the last one is kept. -/
def sorted (entries : List (String × α)) : List (String × α) :=
  entries.foldl (fun written entry => place entry.1 entry.2 written) []

end ObjectGraph.Entries
