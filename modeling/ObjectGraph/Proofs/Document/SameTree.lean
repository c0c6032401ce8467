import Mathlib.Data.List.Nodup
import ObjectGraph.Proofs.Document.Balance

/-!
# Documents with the same text

The canonical text determines the document, up to how a number is held: documents whose entries
stand in key order have the same text exactly when they are the same tree (`written_eq_iff`). The
first character tells what the document is, the brackets tell its parts apart, and the keys are
found in the text of an object although they stand there in another order.
-/

namespace ObjectGraph.Document

/-- What a document is, its parts left aside. -/
inductive Kind where
  | null
  | bool (b : Bool)
  | number
  | string
  | array
  | object

/-- The kind of a document. Integers and doubles are of one kind. -/
def kind : Document → Kind
  | .null => .null
  | .bool b => .bool b
  | .integer _ _ _ => .number
  | .float _ _ => .number
  | .string _ => .string
  | .array _ => .array
  | .object _ => .object

/-- The kind that the first character of a text announces. -/
def Kind.ofFirst (c : Char) : Kind :=
  match c with
  | 'n' => .null
  | 't' => .bool true
  | 'f' => .bool false
  | '"' => .string
  | '[' => .array
  | '\x7b' => .object
  | _ => .number

/-- The entries of every object stand in increasing order of their keys. -/
inductive Ordered : Document → Prop
  | null : Ordered .null
  | bool (b : Bool) : Ordered (.bool b)
  | integer (n : Int) (lower : -integerBound ≤ n) (upper : n < 2 * integerBound) :
      Ordered (.integer n lower upper)
  | float (x : Binary64) (finite : x.isFinite = true) : Ordered (.float x finite)
  | string (s : String) : Ordered (.string s)
  | array {items : List Document} (hitems : ∀ item ∈ items, Ordered item) : Ordered (.array items)
  | object {entries : List (String × Document)} (hkeys : Entries.Increasing entries)
      (hvalues : ∀ entry ∈ entries, Ordered entry.2) : Ordered (.object entries)

/-- Two documents are the same tree: the same null, boolean or string, numbers with the same text,
arrays of the same length with the same trees in order, or objects with the same keys and the same
trees under each of them. -/
inductive SameTree : Document → Document → Prop
  | null : SameTree .null .null
  | bool (b : Bool) : SameTree (.bool b) (.bool b)
  | number {d e : Document} (hd : d.kind = .number) (he : e.kind = .number)
      (htext : d.written = e.written) : SameTree d e
  | string (s : String) : SameTree (.string s) (.string s)
  | array {xs ys : List Document} (hlength : xs.length = ys.length)
      (hitems : ∀ i (hx : i < xs.length) (hy : i < ys.length), SameTree xs[i] ys[i]) :
      SameTree (.array xs) (.array ys)
  | object {es fs : List (String × Document)} (hkeys : Entries.keys es = Entries.keys fs)
      (hvalues : ∀ k d e, Entries.get? k es = some d → Entries.get? k fs = some e → SameTree d e) :
      SameTree (.object es) (.object fs)

section FirstCharacter

theorem Kind.ofFirst_eq_number {c : Char} (h : Binary64.isNumberChar c = true) :
    Kind.ofFirst c = .number := by
  rw [Kind.ofFirst]
  all_goals
    rintro rfl
    exact absurd h (by decide)

/-- A number is written with at least one character, and the first one announces a number. -/
theorem exists_number_eq_cons {text : List Char} (hne : text ≠ [])
    (h : ∀ c ∈ text, Binary64.isNumberChar c = true) :
    ∃ c rest, text = c :: rest ∧ Kind.ofFirst c = .number := by
  obtain ⟨c, rest, rfl⟩ := List.exists_cons_of_ne_nil hne
  exact ⟨c, rest, rfl, Kind.ofFirst_eq_number (h c List.mem_cons_self)⟩

theorem toList_repr_ne_nil (n : Int) : n.repr.toList ≠ [] := by
  rw [Int.repr_eq_if]
  split
  · rw [Nat.toList_repr]
    exact Nat.toDigits_ne_nil
  · rw [String.toList_append]
    exact List.append_ne_nil_of_left_ne_nil (by decide) _

/-- The first character of the text announces the kind of the document. -/
theorem exists_written_eq_cons (d : Document) :
    ∃ c rest, d.written.toList = c :: rest ∧ Kind.ofFirst c = d.kind := by
  cases d with
  | null =>
      rw [written]
      exact ⟨_, _, rfl, rfl⟩
  | bool b =>
      rw [written]
      cases b with
      | true => exact ⟨_, _, rfl, rfl⟩
      | false => exact ⟨_, _, rfl, rfl⟩
  | integer n lower upper =>
      rw [written]
      exact exists_number_eq_cons (toList_repr_ne_nil n) (isNumberChar_of_mem_repr n)
  | float x finite =>
      rw [written, String.toList_ofList]
      exact exists_number_eq_cons x.finiteText_ne_nil Binary64.isNumberChar_of_mem_finiteText
  | string s =>
      rw [written, toList_writtenString]
      exact ⟨_, _, rfl, rfl⟩
  | array items =>
      rw [written, toList_bracketed]
      exact ⟨_, _, rfl, rfl⟩
  | object entries =>
      rw [written, toList_bracketed]
      exact ⟨_, _, rfl, rfl⟩

theorem written_ne_nil (d : Document) : d.written.toList ≠ [] := by
  obtain ⟨c, rest, htext, -⟩ := exists_written_eq_cons d
  rw [htext]
  exact List.cons_ne_nil c rest

theorem kind_eq_of_written_eq {d e : Document} (h : d.written = e.written) : d.kind = e.kind := by
  obtain ⟨c, rest, hd, hkind⟩ := exists_written_eq_cons d
  obtain ⟨c', rest', he, hkind'⟩ := exists_written_eq_cons e
  rw [h, he] at hd
  rw [← hkind, ← hkind', (List.cons.inj hd).1]

end FirstCharacter

section Parts

/-- Arrays with one text have elements with the same texts. -/
theorem written_array_inj {xs ys : List Document} (h : (array xs).written = (array ys).written) :
    xs.map written = ys.map written := by
  have hparts : ∀ items : List Document, ∀ text ∈ writtenItems items,
      Balanced text.toList ∧ text.toList ≠ [] := by
    intro items text htext
    refine ⟨balanced_writtenItems items text htext, ?_⟩
    rw [writtenItems_eq_map] at htext
    obtain ⟨item, -, rfl⟩ := List.mem_map.1 htext
    exact written_ne_nil item
  rw [written, written] at h
  rw [← writtenItems_eq_map, ← writtenItems_eq_map]
  exact bracketed_inj (hparts xs) (hparts ys) h

/-- What is written of an object under a key. -/
theorem get?_writtenEntries (k : String) (entries : List (String × Document)) :
    Entries.get? (writtenString k) (writtenEntries entries) =
      (Entries.get? k entries).map written := by
  rw [writtenEntries_eq_map]
  exact Entries.get?_map writtenString_injective written k entries

theorem nodup_keys_writtenEntries {entries : List (String × Document)}
    (h : (Entries.keys entries).Nodup) : (Entries.keys (writtenEntries entries)).Nodup := by
  rw [writtenEntries_eq_map, Entries.keys_map]
  exact List.Nodup.map writtenString_injective h

/-- Entries whose keys are written strings can be told from their texts. -/
theorem map_writtenEntry_inj {xs ys : List (String × String)}
    (hx : ∀ x ∈ xs, ∃ k, x.1 = writtenString k) (hy : ∀ y ∈ ys, ∃ k, y.1 = writtenString k)
    (h : xs.map writtenEntry = ys.map writtenEntry) : xs = ys := by
  induction xs generalizing ys with
  | nil => exact (List.map_eq_nil_iff.1 h.symm).symm
  | cons x xs ih =>
      cases ys with
      | nil => cases h
      | cons y ys =>
          obtain ⟨⟨k, hk⟩, hxrest⟩ := List.forall_mem_cons.1 hx
          obtain ⟨⟨l, hl⟩, hyrest⟩ := List.forall_mem_cons.1 hy
          obtain ⟨hfirst, hrest⟩ := List.cons.inj h
          obtain ⟨xkey, xvalue⟩ := x
          obtain ⟨ykey, yvalue⟩ := y
          dsimp only at hk hl
          subst hk hl
          obtain ⟨rfl, rfl⟩ := writtenEntry_inj hfirst
          rw [ih hxrest hyrest hrest]

/-- Objects with one text have, under each key, values with the same text. -/
theorem written_object_inj {es fs : List (String × Document)} (hes : Entries.Increasing es)
    (hfs : Entries.Increasing fs) (h : (object es).written = (object fs).written) (k : String) :
    (Entries.get? k es).map written = (Entries.get? k fs).map written := by
  have hkeys : ∀ entries : List (String × Document),
      ∀ entry ∈ Entries.sorted (writtenEntries entries), ∃ k, entry.1 = writtenString k := by
    intro entries entry hentry
    have hmem := Entries.mem_of_mem_sorted hentry
    rw [writtenEntries_eq_map] at hmem
    obtain ⟨source, -, rfl⟩ := List.mem_map.1 hmem
    exact ⟨source.1, rfl⟩
  have hparts : ∀ entries : List (String × Document),
      ∀ text ∈ (Entries.sorted (writtenEntries entries)).map writtenEntry,
        Balanced text.toList ∧ text.toList ≠ [] := by
    intro entries text htext
    obtain ⟨entry, hentry, rfl⟩ := List.mem_map.1 htext
    refine ⟨balanced_writtenEntries entries entry (Entries.mem_of_mem_sorted hentry), ?_⟩
    rw [toList_writtenEntry]
    exact List.append_ne_nil_of_right_ne_nil _ (List.cons_ne_nil _ _)
  -- The texts stand in the order of the written keys, so the values are found by key, not by place.
  have hlookup : ∀ entries : List (String × Document), Entries.Increasing entries →
      Entries.get? (writtenString k) (Entries.sorted (writtenEntries entries)) =
        (Entries.get? k entries).map written := by
    intro entries hincreasing
    rw [Entries.get?_sorted_of_nodup (nodup_keys_writtenEntries hincreasing.nodup_keys),
      get?_writtenEntries]
  rw [written, written] at h
  have hsorted : Entries.sorted (writtenEntries es) = Entries.sorted (writtenEntries fs) :=
    map_writtenEntry_inj (hkeys es) (hkeys fs) (bracketed_inj (hparts es) (hparts fs) h)
  rw [← hlookup es hes, ← hlookup fs hfs, hsorted]

end Parts

/-- The text of an ordered document determines the tree. -/
theorem sameTree_of_written_eq {d e : Document} (hd : d.Ordered) (he : e.Ordered)
    (h : d.written = e.written) : d.SameTree e := by
  -- In every case the first character leaves one kind for the other document.
  induction hd generalizing e with
  | null =>
      have hkind := kind_eq_of_written_eq h
      cases he with
      | null => exact SameTree.null
      | _ => cases hkind
  | bool b =>
      have hkind := kind_eq_of_written_eq h
      cases he with
      | bool b' =>
          cases hkind
          exact SameTree.bool b
      | _ => cases hkind
  | integer n lower upper =>
      exact SameTree.number rfl (kind_eq_of_written_eq h).symm h
  | float x finite =>
      exact SameTree.number rfl (kind_eq_of_written_eq h).symm h
  | string s =>
      have hkind := kind_eq_of_written_eq h
      cases he with
      | string t =>
          rw [written, written] at h
          rw [writtenString_injective h]
          exact SameTree.string t
      | _ => cases hkind
  | @array xs hitems ih =>
      have hkind := kind_eq_of_written_eq h
      cases he with
      | @array ys hitems' =>
          have htexts := written_array_inj h
          refine SameTree.array (by simpa using congrArg List.length htexts) ?_
          intro i hx hy
          refine ih xs[i] (List.getElem_mem hx) (hitems' ys[i] (List.getElem_mem hy)) ?_
          have hitem := congrArg (fun texts => texts[i]?) htexts
          simpa [hx, hy] using hitem
      | _ => cases hkind
  | @object es hkeys hvalues ih =>
      have hkind := kind_eq_of_written_eq h
      cases he with
      | @object fs hkeys' hvalues' =>
          have htexts := written_object_inj hkeys hkeys' h
          have hsame : Entries.keys es = Entries.keys fs :=
            hkeys.keys_eq hkeys' fun k => Entries.mem_keys_iff_of_map_get? (htexts k)
          refine SameTree.object hsame ?_
          intro k v w hv hw
          have htext := htexts k
          rw [hv, hw] at htext
          exact ih (k, v) (Entries.mem_of_get? hv) (hvalues' (k, w) (Entries.mem_of_get? hw))
            (Option.some.inj htext)
      | _ => cases hkind

/-- Objects with the same keys and the same texts under each of them have the same written
entries. -/
theorem writtenEntries_congr {es fs : List (String × Document)} (hes : Entries.Increasing es)
    (hfs : Entries.Increasing fs)
    (h : ∀ k, (Entries.get? k es).map written = (Entries.get? k fs).map written) :
    writtenEntries es = writtenEntries fs := by
  have htexts : es.map (fun entry => (entry.1, entry.2.written)) =
      fs.map fun entry => (entry.1, entry.2.written) := by
    apply (hes.map written).ext (hfs.map written)
    intro k
    exact (Entries.get?_map Function.injective_id written k es).trans
      ((h k).trans (Entries.get?_map Function.injective_id written k fs).symm)
  have hwritten := congrArg (List.map fun entry => (writtenString entry.1, entry.2)) htexts
  rw [List.map_map, List.map_map] at hwritten
  rw [writtenEntries_eq_map, writtenEntries_eq_map]
  exact hwritten

/-- Trees that are the same have the same text. -/
theorem SameTree.written_eq {d e : Document} (h : d.SameTree e) (hd : d.Ordered) (he : e.Ordered) :
    d.written = e.written := by
  induction h with
  | null => rfl
  | bool b => rfl
  -- Numbers are the only documents of which the text is compared.
  | number _ _ htext => exact htext
  | string s => rfl
  | @array xs ys hlength hitems ih =>
      cases hd with
      | array hxs =>
          cases he with
          | array hys =>
              have htexts : xs.map written = ys.map written := by
                apply List.ext_getElem (by simpa using hlength)
                intro i hx hy
                rw [List.length_map] at hx hy
                rw [List.getElem_map, List.getElem_map]
                exact ih i hx hy (hxs _ (List.getElem_mem hx)) (hys _ (List.getElem_mem hy))
              rw [written, written, writtenItems_eq_map, writtenItems_eq_map, htexts]
  | @object es fs hkeys hvalues ih =>
      cases hd with
      | object hes hesvalues =>
          cases he with
          | object hfs hfsvalues =>
              have htexts : ∀ k, (Entries.get? k es).map written =
                  (Entries.get? k fs).map written := by
                intro k
                apply Entries.map_get?_congr hkeys
                intro v w hv hw
                exact ih k v w hv hw (hesvalues (k, v) (Entries.mem_of_get? hv))
                  (hfsvalues (k, w) (Entries.mem_of_get? hw))
              rw [written, written, writtenEntries_congr hes hfs htexts]

/-- Ordered documents have the same text exactly when they are the same tree. -/
theorem written_eq_iff {d e : Document} (hd : d.Ordered) (he : e.Ordered) :
    d.written = e.written ↔ d.SameTree e :=
  ⟨sameTree_of_written_eq hd he, fun h => h.written_eq hd he⟩

end ObjectGraph.Document
