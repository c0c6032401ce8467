import ObjectGraph.Node.Identity
import ObjectGraph.Proofs.Document.SameTree
import ObjectGraph.Proofs.Entries.Sorted
import ObjectGraph.Proofs.Result

/-!
# The content of a node, entry by entry

The content of a node is made from its hashed members as the content of a map is made from its
entries (`Node.canonicalTree_eq`). What entries contribute under one key depends on the values under
that key only: `canonicalEntries_valuesAt` reads the contents of one key off those of all entries,
and `exists_canonicalEntries` puts them together again. So values that have the same texts under
every name give the same text of a map (`Value.contentText?_map_congr`) and of a node
(`Node.canonicalText_congr`).
-/

namespace ObjectGraph

theorem Name.isHashed_iff {name : String} :
    Name.isHashed name = true ↔ name ≠ "id" ∧ ¬ "__".toList <+: name.toList := by
  simp only [Name.isHashed, Name.isTransient, Text.startsWith, Header.name,
    Bool.and_eq_true, bne_iff_ne, Bool.not_eq_true', ← Bool.not_eq_true, List.isPrefixOf_iff_prefix]

/-- The members that belong to the content of a node. -/
def Node.hashedMembers (n : Node) : List (String × Value) :=
  (n.members .all).filter fun member => Name.isHashed member.1

theorem canonicalItems_cons (member : String) (v : Value) (rest : List Value) :
    canonicalItems member (v :: rest) = do
      return (← v.canonicalTree member) :: (← canonicalItems member rest) := by
  rw [canonicalItems]

theorem canonicalEntries_cons (key : String) (v : Value) (rest : List (String × Value)) :
    canonicalEntries ((key, v) :: rest) = do
      return (key, ← v.canonicalTree key) :: (← canonicalEntries rest) := by
  rw [canonicalEntries]

/-- The elements of a list have contents exactly when the first and the others have. -/
theorem canonicalItems_cons_eq_ok_iff {member : String} {v : Value} {rest : List Value}
    {ds : List Document} :
    canonicalItems member (v :: rest) = .ok ds ↔
      ∃ d others, v.canonicalTree member = .ok d ∧ canonicalItems member rest = .ok others ∧
        ds = d :: others := by
  simp only [canonicalItems_cons, bind_eq_ok_iff, pure_eq_ok_iff]
  constructor
  · rintro ⟨d, hd, others, hothers, rfl⟩
    exact ⟨d, others, hd, hothers, rfl⟩
  · rintro ⟨d, others, hd, hothers, rfl⟩
    exact ⟨d, hd, others, hothers, rfl⟩

/-- Entries have contents exactly when the first and the others have. -/
theorem canonicalEntries_cons_eq_ok_iff {key : String} {v : Value} {rest : List (String × Value)}
    {es : List (String × Document)} :
    canonicalEntries ((key, v) :: rest) = .ok es ↔
      ∃ d others, v.canonicalTree key = .ok d ∧ canonicalEntries rest = .ok others ∧
        es = (key, d) :: others := by
  simp only [canonicalEntries_cons, bind_eq_ok_iff, pure_eq_ok_iff]
  constructor
  · rintro ⟨d, hd, others, hothers, rfl⟩
    exact ⟨d, others, hd, hothers, rfl⟩
  · rintro ⟨d, others, hd, hothers, rfl⟩
    exact ⟨d, hd, others, hothers, rfl⟩

/-- Every content in a list is that of an element. -/
theorem exists_of_mem_canonicalItems {items : List Value} {member : String} {ds : List Document}
    (h : canonicalItems member items = .ok ds) {d : Document} (hd : d ∈ ds) :
    ∃ item ∈ items, item.canonicalTree member = .ok d := by
  induction items generalizing ds with
  | nil =>
      cases h
      cases hd
  | cons item rest ih =>
      obtain ⟨first, others, hfirst, hothers, rfl⟩ := canonicalItems_cons_eq_ok_iff.1 h
      rcases List.mem_cons.1 hd with rfl | hd
      · exact ⟨item, List.mem_cons_self, hfirst⟩
      · obtain ⟨found, hfound, hcontent⟩ := ih hothers hd
        exact ⟨found, List.mem_cons_of_mem _ hfound, hcontent⟩

/-- Every content of entries is that of a value under the same key. -/
theorem exists_of_mem_canonicalEntries {entries : List (String × Value)}
    {es : List (String × Document)} (h : canonicalEntries entries = .ok es)
    {e : String × Document} (he : e ∈ es) :
    ∃ v, (e.1, v) ∈ entries ∧ v.canonicalTree e.1 = .ok e.2 := by
  induction entries generalizing es with
  | nil =>
      cases h
      cases he
  | cons entry rest ih =>
      obtain ⟨key, v⟩ := entry
      obtain ⟨first, others, hfirst, hothers, rfl⟩ := canonicalEntries_cons_eq_ok_iff.1 h
      rcases List.mem_cons.1 he with rfl | he
      · exact ⟨v, List.mem_cons_self, hfirst⟩
      · obtain ⟨found, hfound, hcontent⟩ := ih hothers he
        exact ⟨found, List.mem_cons_of_mem _ hfound, hcontent⟩

/-- A list has contents if all its elements have. -/
theorem exists_canonicalItems_iff {items : List Value} {member : String} :
    (∃ ds, canonicalItems member items = .ok ds) ↔
      ∀ item ∈ items, ∃ d, item.canonicalTree member = .ok d := by
  induction items with
  | nil => simp [canonicalItems]
  | cons item rest ih =>
      rw [List.forall_mem_cons, ← ih]
      constructor
      · rintro ⟨ds, h⟩
        obtain ⟨d, others, hd, hothers, -⟩ := canonicalItems_cons_eq_ok_iff.1 h
        exact ⟨⟨d, hd⟩, others, hothers⟩
      · rintro ⟨⟨d, hd⟩, others, hothers⟩
        exact ⟨d :: others, canonicalItems_cons_eq_ok_iff.2 ⟨d, others, hd, hothers, rfl⟩⟩

/-- Entries have contents if all their values have. -/
theorem exists_canonicalEntries_iff {entries : List (String × Value)} :
    (∃ es, canonicalEntries entries = .ok es) ↔
      ∀ entry ∈ entries, ∃ d, entry.2.canonicalTree entry.1 = .ok d := by
  induction entries with
  | nil => simp [canonicalEntries]
  | cons entry rest ih =>
      obtain ⟨key, v⟩ := entry
      rw [List.forall_mem_cons, ← ih]
      constructor
      · rintro ⟨es, h⟩
        obtain ⟨d, others, hd, hothers, -⟩ := canonicalEntries_cons_eq_ok_iff.1 h
        exact ⟨⟨d, hd⟩, others, hothers⟩
      · rintro ⟨⟨d, hd⟩, others, hothers⟩
        exact ⟨(key, d) :: others, canonicalEntries_cons_eq_ok_iff.2 ⟨d, others, hd, hothers, rfl⟩⟩

/-- A list fails with its first element that fails. -/
theorem canonicalItems_eq_error {items : List Value} {member : String} {e : CanonicalError}
    (h : canonicalItems member items = .error e) :
    ∃ before item after, items = before ++ item :: after ∧
      (∀ v ∈ before, ∃ d, v.canonicalTree member = .ok d) ∧
        item.canonicalTree member = .error e := by
  induction items with
  | nil => cases h
  | cons item rest ih =>
      rw [canonicalItems_cons, bind_eq_error_iff] at h
      rcases h with hitem | ⟨d, hd, hrest⟩
      · exact ⟨[], item, rest, rfl, List.forall_mem_nil _, hitem⟩
      · obtain ⟨before, found, after, rfl, hbefore, hfound⟩ := ih (bind_pure_eq_error_iff.1 hrest)
        exact ⟨item :: before, found, after, rfl,
          List.forall_mem_cons.2 ⟨⟨d, hd⟩, hbefore⟩, hfound⟩

/-- Of entries chosen by key, the first one that fails is the first in all entries. -/
theorem canonicalEntries_filter_eq_error {p : String → Bool} {entries : List (String × Value)}
    {e : CanonicalError} (h : canonicalEntries (entries.filter fun entry => p entry.1) = .error e) :
    ∃ before key v after, entries = before ++ (key, v) :: after ∧ p key = true ∧
      (∀ entry ∈ before, p entry.1 = true → ∃ d, entry.2.canonicalTree entry.1 = .ok d) ∧
      v.canonicalTree key = .error e := by
  induction entries with
  | nil => cases h
  | cons entry rest ih =>
      obtain ⟨key, v⟩ := entry
      cases hkey : p key with
      | true =>
          rw [List.filter_cons_of_pos (by simpa using hkey), canonicalEntries_cons,
            bind_eq_error_iff] at h
          rcases h with hv | ⟨d, hd, hrest⟩
          · exact ⟨[], key, v, rest, rfl, hkey, List.forall_mem_nil _, hv⟩
          · obtain ⟨before, key', w, after, rfl, hkey', hbefore, hw⟩ :=
              ih (bind_pure_eq_error_iff.1 hrest)
            refine ⟨(key, v) :: before, key', w, after, rfl, hkey', ?_, hw⟩
            exact List.forall_mem_cons.2 ⟨fun _ => ⟨d, hd⟩, hbefore⟩
      | false =>
          rw [List.filter_cons_of_neg (by simp [hkey])] at h
          obtain ⟨before, key', w, after, rfl, hkey', hbefore, hw⟩ := ih h
          refine ⟨(key, v) :: before, key', w, after, rfl, hkey', ?_, hw⟩
          refine List.forall_mem_cons.2 ⟨?_, hbefore⟩
          intro hchosen
          rw [hkey] at hchosen
          cases hchosen

/-- The contents of two lists of entries are those of the first and then those of the second. -/
theorem canonicalEntries_append (xs ys : List (String × Value)) :
    canonicalEntries (xs ++ ys) = do
      return (← canonicalEntries xs) ++ (← canonicalEntries ys) := by
  induction xs with
  | nil => simp [canonicalEntries]
  | cons entry xs ih =>
      obtain ⟨key, v⟩ := entry
      simp [List.cons_append, canonicalEntries_cons, ih]

/-- Leaving out the members that do not count, and then treating all as entries. -/
theorem canonicalMembers_eq (members : List (String × Value)) :
    canonicalMembers members =
      canonicalEntries (members.filter fun member => Name.isHashed member.1) := by
  induction members with
  | nil => rw [canonicalMembers, List.filter_nil, canonicalEntries]
  | cons member rest ih =>
      obtain ⟨name, v⟩ := member
      rw [canonicalMembers]
      cases hname : Name.isHashed name with
      | true => simp [hname, canonicalEntries_cons, ih]
      | false => simp [hname, ih]

/-- The content of a node is that of its header and of the members that count, in their order. -/
theorem Node.canonicalTree_eq (n : Node) :
    n.canonicalTree = do
      return Document.ofEntries
        (contentHeader n.typeName n.applicationId ++ (← canonicalEntries n.hashedMembers)) := by
  obtain ⟨type, id, app, declared, dynamic⟩ := n
  rw [canonicalTree, hashedMembers, members, List.filter_append, canonicalEntries_append,
    canonicalMembers_eq, canonicalMembers_eq]
  simp

/-- The contents under one key are those of the values under the key. -/
theorem canonicalEntries_valuesAt {entries : List (String × Value)} {es : List (String × Document)}
    (h : canonicalEntries entries = .ok es) (k : String) :
    canonicalItems k (Entries.valuesAt k entries) = .ok (Entries.valuesAt k es) := by
  induction entries generalizing es with
  | nil =>
      rw [canonicalEntries] at h
      cases h
      rw [Entries.valuesAt_nil, canonicalItems, Entries.valuesAt_nil]
  | cons entry rest ih =>
      obtain ⟨key, v⟩ := entry
      obtain ⟨d, others, hd, hothers, rfl⟩ := canonicalEntries_cons_eq_ok_iff.1 h
      rw [Entries.valuesAt_cons, Entries.valuesAt_cons]
      split
      · rename_i heq
        subst heq
        exact canonicalItems_cons_eq_ok_iff.2 ⟨d, _, hd, ih hothers, rfl⟩
      · exact ih hothers

/-- If the values under every key have contents, the entries have. -/
theorem exists_canonicalEntries {entries : List (String × Value)}
    (h : ∀ k, ∃ ds, canonicalItems k (Entries.valuesAt k entries) = .ok ds) :
    ∃ es, canonicalEntries entries = .ok es := by
  induction entries with
  | nil => exact ⟨[], by rw [canonicalEntries]⟩
  | cons entry rest ih =>
      obtain ⟨key, v⟩ := entry
      obtain ⟨ds, hkey⟩ := h key
      rw [Entries.valuesAt_cons, if_pos rfl, canonicalItems_cons_eq_ok_iff] at hkey
      obtain ⟨d, others, hd, hothers, -⟩ := hkey
      have hrest : ∀ k, ∃ ds, canonicalItems k (Entries.valuesAt k rest) = .ok ds := by
        intro k
        -- Under the key of the first entry, the values left are the later ones.
        by_cases hk : key = k
        · subst hk
          exact ⟨others, hothers⟩
        · have hvalues := h k
          rwa [Entries.valuesAt_cons, if_neg hk] at hvalues
      obtain ⟨es, hes⟩ := ih hrest
      exact ⟨(key, d) :: es, canonicalEntries_cons_eq_ok_iff.2 ⟨d, es, hd, hes, rfl⟩⟩

/-! ## The same text -/

/-- The text of the content of a value that stands under a name, if it has one. -/
def Value.contentText? (name : String) (v : Value) : Option String :=
  (v.canonicalTree name).toOption.map Document.written

/-- The texts of the elements of a list, if all of them have one. -/
def contentTexts? (name : String) (items : List Value) : Option (List String) :=
  (canonicalItems name items).toOption.map (List.map Document.written)

theorem contentTexts?_nil (name : String) : contentTexts? name [] = some [] := by
  rw [contentTexts?, canonicalItems]
  rfl

/-- The texts of the elements are those of the first and of the others. -/
theorem contentTexts?_cons (name : String) (v : Value) (rest : List Value) :
    contentTexts? name (v :: rest) =
      (v.contentText? name).bind fun text => (contentTexts? name rest).map (text :: ·) := by
  rw [contentTexts?, canonicalItems_cons, contentTexts?, Value.contentText?]
  cases v.canonicalTree name with
  | error e => rfl
  | ok d => cases canonicalItems name rest <;> rfl

theorem Value.contentText?_node (name : String) (handle : Handle) (n : Node) :
    (Value.node handle n).contentText? name = n.canonicalText.toOption := by
  rw [contentText?, canonicalTree, Node.canonicalText, toOption_map]

theorem Value.contentText?_list (name : String) (items : List Value) :
    (Value.list items).contentText? name =
      (contentTexts? name items).map (Document.bracketed '[' ']') := by
  rw [contentText?, canonicalTree, contentTexts?]
  cases canonicalItems name items with
  | error e => rfl
  | ok ds => simp [Except.toOption, pure, Except.pure, Document.written,
      Document.writtenItems_eq_map]

theorem contentTexts?_valuesAt {entries : List (String × Value)} {es : List (String × Document)}
    (h : canonicalEntries entries = .ok es) (k : String) :
    contentTexts? k (Entries.valuesAt k entries) =
      some ((Entries.valuesAt k es).map Document.written) := by
  rw [contentTexts?, canonicalEntries_valuesAt h k]
  rfl

section Congruence

variable {xs ys : List (String × Value)} {a b : Node}

/-- Where the texts under every key agree and the first entries have contents, the others have
contents too. -/
theorem exists_canonicalEntries_of_contentTexts? {es : List (String × Document)}
    (h : ∀ k, contentTexts? k (Entries.valuesAt k xs) = contentTexts? k (Entries.valuesAt k ys))
    (hes : canonicalEntries xs = .ok es) : ∃ fs, canonicalEntries ys = .ok fs := by
  apply exists_canonicalEntries
  intro k
  have hk := (h k).symm.trans (contentTexts?_valuesAt hes k)
  obtain ⟨ds, hds, -⟩ := Option.map_eq_some_iff.1 hk
  exact ⟨ds, toOption_eq_some_iff.1 hds⟩

/-- Entries whose values have the same texts under every key have contents with the same texts under
every key, or none of them has contents. -/
theorem canonicalEntries_congr
    (h : ∀ k, contentTexts? k (Entries.valuesAt k xs) = contentTexts? k (Entries.valuesAt k ys)) :
    (∃ es fs, canonicalEntries xs = .ok es ∧ canonicalEntries ys = .ok fs ∧
      ∀ k, (Entries.valuesAt k es).map Document.written =
        (Entries.valuesAt k fs).map Document.written) ∨
    ∃ e f, canonicalEntries xs = .error e ∧ canonicalEntries ys = .error f := by
  cases hx : canonicalEntries xs with
  | ok es =>
      left
      obtain ⟨fs, hfs⟩ := exists_canonicalEntries_of_contentTexts? h hx
      refine ⟨es, fs, rfl, hfs, ?_⟩
      intro k
      have hk := h k
      rw [contentTexts?_valuesAt hx k, contentTexts?_valuesAt hfs k] at hk
      exact Option.some.inj hk
  | error e =>
      right
      cases hy : canonicalEntries ys with
      | ok fs =>
          obtain ⟨es, hes⟩ := exists_canonicalEntries_of_contentTexts? (fun k => (h k).symm) hy
          rw [hx] at hes
          cases hes
      | error f => exact ⟨e, f, rfl, rfl⟩

/-- The text of an object is determined by the text of the last value of every key. -/
theorem Document.written_ofEntries_congr {es fs : List (String × Document)}
    (h : ∀ k, (Entries.valuesAt k es).map written = (Entries.valuesAt k fs).map written) :
    (ofEntries es).written = (ofEntries fs).written := by
  have hentries : writtenEntries (Entries.sorted es) = writtenEntries (Entries.sorted fs) := by
    apply writtenEntries_congr (Entries.increasing_sorted es) (Entries.increasing_sorted fs)
    intro k
    rw [Entries.get?_sorted, Entries.get?_sorted, ← List.getLast?_map, ← List.getLast?_map, h k]
  rw [ofEntries, ofEntries, written, written, hentries]

/-- The text of a map depends on the texts under each key only. -/
theorem Value.contentText?_map_congr {name other : String}
    (h : ∀ k, contentTexts? k (Entries.valuesAt k xs) = contentTexts? k (Entries.valuesAt k ys)) :
    (Value.map xs).contentText? name = (Value.map ys).contentText? other := by
  rw [contentText?, contentText?, canonicalTree, canonicalTree]
  rcases canonicalEntries_congr h with ⟨es, fs, hes, hfs, htexts⟩ | ⟨e, f, he, hf⟩
  · rw [hes, hfs]
    exact congrArg some (Document.written_ofEntries_congr htexts)
  · rw [he, hf]
    rfl

/-- The canonical text of a node depends on its header and on the texts under each name only. -/
theorem Node.canonicalText_congr (htype : a.typeName = b.typeName)
    (happ : a.applicationId = b.applicationId)
    (h : ∀ name, Name.isHashed name = true →
      contentTexts? name (Entries.valuesAt name (a.members .all)) =
        contentTexts? name (Entries.valuesAt name (b.members .all))) :
    a.canonicalText.toOption = b.canonicalText.toOption := by
  -- A name that does not count has no values among the hashed members of either node.
  have hhashed : ∀ name, contentTexts? name (Entries.valuesAt name a.hashedMembers) =
      contentTexts? name (Entries.valuesAt name b.hashedMembers) := by
    intro name
    rw [hashedMembers, hashedMembers, Entries.valuesAt_filter, Entries.valuesAt_filter]
    split
    · rename_i hname
      exact h name hname
    · rfl
  rw [canonicalText, canonicalText, canonicalTree_eq, canonicalTree_eq, htype, happ]
  rcases canonicalEntries_congr hhashed with ⟨es, fs, hes, hfs, htexts⟩ | ⟨e, f, he, hf⟩
  · rw [hes, hfs]
    refine congrArg some (Document.written_ofEntries_congr ?_)
    intro k
    rw [Entries.valuesAt_append, Entries.valuesAt_append, List.map_append,
      List.map_append, htexts k]
  · rw [he, hf]
    rfl

end Congruence

end ObjectGraph
