import ObjectGraph.Proofs.Binary64.Text
import ObjectGraph.Proofs.Document.Escape
import ObjectGraph.Proofs.Entries.Sorted

/-!
# Where a written document ends

A reader that counts brackets outside of strings finds the end of a document without knowing what it
is: the text of every document is balanced (`balanced_written`), and a balanced text in front of a
comma or a closing bracket ends there and nowhere else (`Balanced.append_inj`). So the parts between
two brackets can be told apart (`bracketed_inj`).
-/

namespace ObjectGraph.Document

/-- Where a reader stands: inside of `depth` brackets, in a string there, or behind a backslash in
the string. -/
inductive Place where
  | plain (depth : Nat)
  | quoted (depth : Nat)
  | escape (depth : Nat)

namespace Place

/-- The place after a character; none at a comma or closing bracket that belongs to the outside. -/
def next : Place → Char → Option Place
  | .plain depth, c =>
      match c with
      | '"' => some (.quoted depth)
      | '[' => some (.plain (depth + 1))
      | '\x7b' => some (.plain (depth + 1))
      | ']' => if depth = 0 then none else some (.plain (depth - 1))
      | '\x7d' => if depth = 0 then none else some (.plain (depth - 1))
      | ',' => if depth = 0 then none else some (.plain depth)
      | _ => some (.plain depth)
  | .quoted depth, c =>
      match c with
      | '"' => some (.plain depth)
      | '\\' => some (.escape depth)
      | _ => some (.quoted depth)
  | .escape depth, _ => some (.quoted depth)

/-- The place after a text. -/
def after (p : Place) (text : List Char) : Option Place :=
  text.foldlM next p

@[simp] theorem after_nil (p : Place) : p.after [] = some p := rfl

theorem after_cons (p : Place) (c : Char) (text : List Char) :
    p.after (c :: text) = (p.next c).bind fun q => q.after text := by
  rw [after, List.foldlM_cons]
  rfl

theorem after_append (p : Place) (xs ys : List Char) :
    p.after (xs ++ ys) = (p.after xs).bind fun q => q.after ys := by
  rw [after, List.foldlM_append]
  rfl

theorem next_quoted {c : Char} (hquote : c ≠ '"') (hbackslash : c ≠ '\\') (depth : Nat) :
    (quoted depth).next c = some (quoted depth) := by
  rw [next]
  · exact hquote
  · exact hbackslash

/-- A text without quotes and backslashes stays inside the string. -/
theorem after_quoted {text : List Char} (h : ∀ c ∈ text, c ≠ '"' ∧ c ≠ '\\') (depth : Nat) :
    (quoted depth).after text = some (quoted depth) := by
  induction text with
  | nil => rfl
  | cons c rest ih =>
      obtain ⟨⟨hquote, hbackslash⟩, hrest⟩ := List.forall_mem_cons.1 h
      rw [after_cons, next_quoted hquote hbackslash, Option.bind_some, ih hrest]

/-- An escaped character stays inside the string. -/
theorem after_escaped (c : Char) (depth : Nat) :
    (quoted depth).after (escaped c) = some (quoted depth) := by
  rcases escaped_eq_self_or c with ⟨hself, hplain⟩ | ⟨mark, digits, hescape, hdigits⟩
  · rw [hself]
    exact after_quoted (List.forall_mem_singleton.2 hplain) depth
  · rw [hescape, after_cons, next, Option.bind_some, after_cons, next, Option.bind_some]
    exact after_quoted hdigits depth

theorem after_flatMap_escaped (cs : List Char) (depth : Nat) :
    (quoted depth).after (cs.flatMap escaped) = some (quoted depth) := by
  induction cs with
  | nil => rfl
  | cons c cs ih => rw [List.flatMap_cons, after_append, after_escaped, Option.bind_some, ih]

end Place

/-- A text that closes every bracket and string it opens, and nothing else. -/
def Balanced (text : List Char) : Prop :=
  ∀ depth, (Place.plain depth).after text = some (.plain depth)

/-- Nothing, or a text that begins with a comma or a closing bracket. -/
def Closes (text : List Char) : Prop :=
  ∀ c rest, text = c :: rest → (Place.plain 0).next c = none

theorem closes_nil : Closes [] := by
  intro c rest h
  cases h

theorem closes_cons {c : Char} (h : (Place.plain 0).next c = none) (rest : List Char) :
    Closes (c :: rest) := by
  rintro _ _ ⟨⟩
  exact h

namespace Balanced

variable {xs ys r s : List Char}

theorem append (hx : Balanced xs) (hy : Balanced ys) : Balanced (xs ++ ys) := by
  intro depth
  rw [Place.after_append, hx, Option.bind_some, hy]

/-- A text that opens and closes nothing is balanced. -/
theorem of_plain (h : ∀ c ∈ xs, ∀ depth, (Place.plain depth).next c = some (.plain depth)) :
    Balanced xs := by
  intro depth
  induction xs with
  | nil => rfl
  | cons c rest ih =>
      obtain ⟨hc, hrest⟩ := List.forall_mem_cons.1 h
      rw [Place.after_cons, hc, Option.bind_some, ih hrest]

/-- A balanced text does not go on after another one with what would close that. -/
theorem eq_nil_of_closes (hx : Balanced xs) (hboth : Balanced (xs ++ ys))
    (hclose : Closes (ys ++ r)) : ys = [] := by
  cases ys with
  | nil => rfl
  | cons c rest =>
      have hdone := hboth 0
      rw [Place.after_append, hx, Option.bind_some, Place.after_cons,
        hclose c (rest ++ r) rfl] at hdone
      cases hdone

/-- What stands in front of a comma or closing bracket, if it is balanced, can be told from it. -/
theorem append_inj (hx : Balanced xs) (hy : Balanced ys) (hr : Closes r) (hs : Closes s)
    (h : xs ++ r = ys ++ s) : xs = ys ∧ r = s := by
  -- One of the two texts goes on after the other, and both are balanced.
  rcases List.append_eq_append_iff.1 h with ⟨more, rfl, rfl⟩ | ⟨more, rfl, rfl⟩
  · have hmore := eq_nil_of_closes hx hy hr
    subst hmore
    exact ⟨(List.append_nil xs).symm, rfl⟩
  · have hmore := eq_nil_of_closes hy hx hs
    subst hmore
    exact ⟨List.append_nil ys, rfl⟩

end Balanced

section Parts

variable {xs ys : List (List Char)}

/-- With commas between them, the first part comes before those that follow a comma each. -/
theorem intercalate_comma_cons (x : List Char) (xs : List (List Char)) :
    [','].intercalate (x :: xs) = x ++ xs.flatMap fun part => ',' :: part := by
  induction xs generalizing x with
  | nil => rw [List.intercalate_singleton, List.flatMap_nil, List.append_nil]
  | cons y ys ih =>
      rw [List.intercalate_cons_cons, ih, List.flatMap_cons, List.append_assoc]
      rfl

theorem closes_flatMap_comma (xs : List (List Char)) :
    Closes (xs.flatMap fun part => ',' :: part) := by
  cases xs with
  | nil => exact closes_nil
  | cons x xs => exact closes_cons rfl _

/-- Inside of brackets commas do not end anything. -/
theorem after_intercalate_comma (hx : ∀ x ∈ xs, Balanced x) (depth : Nat) :
    (Place.plain (depth + 1)).after ([','].intercalate xs) = some (.plain (depth + 1)) := by
  have htail : ∀ ys : List (List Char), (∀ y ∈ ys, Balanced y) →
      (Place.plain (depth + 1)).after (ys.flatMap fun part => ',' :: part) =
        some (.plain (depth + 1)) := by
    intro ys hy
    induction ys with
    | nil => rfl
    | cons y ys ih =>
        obtain ⟨hfirst, hrest⟩ := List.forall_mem_cons.1 hy
        have hcomma : (Place.plain (depth + 1)).next ',' = some (.plain (depth + 1)) := rfl
        rw [List.flatMap_cons, List.cons_append, Place.after_cons, hcomma, Option.bind_some,
          Place.after_append, hfirst, Option.bind_some, ih hrest]
  cases xs with
  | nil => rfl
  | cons x xs =>
      obtain ⟨hfirst, hrest⟩ := List.forall_mem_cons.1 hx
      rw [intercalate_comma_cons, Place.after_append, hfirst, Option.bind_some, htail xs hrest]

/-- Balanced parts are told from the text that has a comma before each. -/
theorem flatMap_comma_inj (hx : ∀ x ∈ xs, Balanced x) (hy : ∀ y ∈ ys, Balanced y)
    (h : (xs.flatMap fun part => ',' :: part) = ys.flatMap fun part => ',' :: part) : xs = ys := by
  induction xs generalizing ys with
  | nil =>
      cases ys with
      | nil => rfl
      | cons y ys => cases h
  | cons x xs ih =>
      cases ys with
      | nil => cases h
      | cons y ys =>
          obtain ⟨hxfirst, hxrest⟩ := List.forall_mem_cons.1 hx
          obtain ⟨hyfirst, hyrest⟩ := List.forall_mem_cons.1 hy
          rw [List.flatMap_cons, List.flatMap_cons] at h
          obtain ⟨rfl, hrest⟩ := hxfirst.append_inj hyfirst (closes_flatMap_comma xs)
            (closes_flatMap_comma ys) (List.cons.inj h).2
          rw [ih hxrest hyrest hrest]

/-- Parts that are balanced and not empty can be told apart by the commas between them. -/
theorem intercalate_comma_inj (hx : ∀ x ∈ xs, Balanced x ∧ x ≠ [])
    (hy : ∀ y ∈ ys, Balanced y ∧ y ≠ []) (h : [','].intercalate xs = [','].intercalate ys) :
    xs = ys := by
  cases xs with
  | nil =>
      cases ys with
      | nil => rfl
      | cons y ys =>
          -- Here an empty part would do harm: one of them is written like none.
          rw [intercalate_comma_cons, List.intercalate_nil] at h
          exact absurd (List.append_eq_nil_iff.1 h.symm).1 (hy y List.mem_cons_self).2
  | cons x xs =>
      cases ys with
      | nil =>
          rw [intercalate_comma_cons, List.intercalate_nil] at h
          exact absurd (List.append_eq_nil_iff.1 h).1 (hx x List.mem_cons_self).2
      | cons y ys =>
          obtain ⟨hxfirst, hxrest⟩ := List.forall_mem_cons.1 hx
          obtain ⟨hyfirst, hyrest⟩ := List.forall_mem_cons.1 hy
          rw [intercalate_comma_cons, intercalate_comma_cons] at h
          obtain ⟨rfl, hrest⟩ := hxfirst.1.append_inj hyfirst.1 (closes_flatMap_comma xs)
            (closes_flatMap_comma ys) h
          rw [flatMap_comma_inj (fun x h => (hxrest x h).1) (fun y h => (hyrest y h).1) hrest]

theorem toList_bracketed (opening closing : Char) (parts : List String) :
    (bracketed opening closing parts).toList =
      opening :: ([','].intercalate (parts.map String.toList) ++ [closing]) := by
  rw [bracketed, String.toList_append, String.toList_append, String.toList_intercalate,
    Char.toString, Char.toString, String.toList_singleton, String.toList_singleton]
  rfl

/-- Balanced parts in brackets are balanced. -/
theorem balanced_bracketed {opening closing : Char} {parts : List String}
    (hopening : ∀ depth, (Place.plain depth).next opening = some (.plain (depth + 1)))
    (hclosing : ∀ depth, (Place.plain (depth + 1)).next closing = some (.plain depth))
    (hparts : ∀ part ∈ parts, Balanced part.toList) :
    Balanced (bracketed opening closing parts).toList := by
  intro depth
  have hlists : ∀ part ∈ parts.map String.toList, Balanced part := List.forall_mem_map.2 hparts
  rw [toList_bracketed, Place.after_cons, hopening, Option.bind_some, Place.after_append,
    after_intercalate_comma hlists, Option.bind_some, Place.after_cons, hclosing, Option.bind_some,
    Place.after_nil]

/-- Brackets around parts that are balanced and not empty determine the parts. -/
theorem bracketed_inj {opening closing : Char} {xs ys : List String}
    (hx : ∀ x ∈ xs, Balanced x.toList ∧ x.toList ≠ [])
    (hy : ∀ y ∈ ys, Balanced y.toList ∧ y.toList ≠ [])
    (h : bracketed opening closing xs = bracketed opening closing ys) : xs = ys := by
  have htext := congrArg String.toList h
  rw [toList_bracketed, toList_bracketed] at htext
  have hlists : xs.map String.toList = ys.map String.toList :=
    intercalate_comma_inj (List.forall_mem_map.2 hx) (List.forall_mem_map.2 hy)
      (List.append_cancel_right (List.cons.inj htext).2)
  exact (List.map_inj_right fun _ _ => String.toList_inj.1).1 hlists

end Parts

section Documents

theorem writtenItems_eq_map (items : List Document) : writtenItems items = items.map written := by
  induction items with
  | nil => rw [writtenItems, List.map_nil]
  | cons item rest ih => rw [writtenItems, List.map_cons, ih]

theorem writtenEntries_eq_map (entries : List (String × Document)) :
    writtenEntries entries = entries.map fun entry => (writtenString entry.1, entry.2.written) := by
  induction entries with
  | nil => rw [writtenEntries, List.map_nil]
  | cons entry rest ih => rw [writtenEntries, List.map_cons, ih]

theorem balanced_writtenString (s : String) : Balanced (writtenString s).toList := by
  intro depth
  have hopening : (Place.plain depth).next '"' = some (.quoted depth) := rfl
  rw [toList_writtenString, Place.after_cons, hopening, Option.bind_some, Place.after_append,
    Place.after_flatMap_escaped]
  rfl

/-- Characters of numbers open and close nothing. -/
theorem balanced_of_isNumberChar {text : List Char}
    (h : ∀ c ∈ text, Binary64.isNumberChar c = true) : Balanced text := by
  apply Balanced.of_plain
  intro c hc depth
  have hnumber := h c hc
  -- What is left to show is that the character is none of those with a meaning of their own.
  rw [Place.next]
  all_goals
    rintro rfl
    exact absurd hnumber (by decide)

/-- An integer is written in characters of numbers. -/
theorem isNumberChar_of_mem_repr (n : Int) :
    ∀ c ∈ n.repr.toList, Binary64.isNumberChar c = true := by
  have hdigits : ∀ m : Nat, ∀ c ∈ m.repr.toList, Binary64.isNumberChar c = true := by
    intro m c hc
    rw [Nat.toList_repr] at hc
    exact Binary64.isNumberChar_of_mem_toDigits hc
  rw [Int.repr_eq_if]
  split
  · exact hdigits _
  · have hminus : "-".toList = ['-'] := rfl
    rw [String.toList_append, hminus]
    exact List.forall_mem_append.2 ⟨List.forall_mem_singleton.2 (by decide), hdigits _⟩

mutual

/-- The text of a document is balanced. -/
theorem balanced_written : (d : Document) → Balanced d.written.toList
  | .null => by
      rw [written]
      exact fun _ => rfl
  | .bool true => by
      rw [written]
      exact fun _ => rfl
  | .bool false => by
      rw [written]
      exact fun _ => rfl
  | .integer n _ _ => by
      rw [written]
      exact balanced_of_isNumberChar (isNumberChar_of_mem_repr n)
  | .float x _ => by
      rw [written, String.toList_ofList]
      exact balanced_of_isNumberChar Binary64.isNumberChar_of_mem_finiteText
  | .string s => by
      rw [written]
      exact balanced_writtenString s
  | .array items => by
      rw [written]
      exact balanced_bracketed (fun _ => rfl) (fun _ => rfl) (balanced_writtenItems items)
  | .object entries => by
      rw [written]
      refine balanced_bracketed (fun _ => rfl) (fun _ => rfl) (List.forall_mem_map.2 ?_)
      -- The order of the entries does not matter here, only where they come from.
      intro entry hentry
      exact balanced_writtenEntries entries entry (Entries.mem_of_mem_sorted hentry)

/-- The texts of the elements are balanced. -/
theorem balanced_writtenItems : (items : List Document) →
    ∀ text ∈ writtenItems items, Balanced text.toList
  | [] => by
      rw [writtenItems]
      exact List.forall_mem_nil _
  | item :: rest => by
      rw [writtenItems]
      exact List.forall_mem_cons.2 ⟨balanced_written item, balanced_writtenItems rest⟩

/-- The texts of the entries are balanced. -/
theorem balanced_writtenEntries : (entries : List (String × Document)) →
    ∀ entry ∈ writtenEntries entries, Balanced (writtenEntry entry).toList
  | [] => by
      rw [writtenEntries]
      exact List.forall_mem_nil _
  | (key, value) :: rest => by
      rw [writtenEntries]
      refine List.forall_mem_cons.2 ⟨?_, balanced_writtenEntries rest⟩
      have hcolon : Balanced [':'] := fun _ => rfl
      rw [toList_writtenEntry]
      exact (balanced_writtenString key).append (hcolon.append (balanced_written value))

end

end Documents

end ObjectGraph.Document
