import ObjectGraph.Proofs.Document.SameTree
import ObjectGraph.Proofs.Materialize.Fill
import ObjectGraph.Proofs.Name.Validity

/-!
# Which documents are refused

A document is refused for an entry of an object with a text as its type chain: an id that is neither
a text nor null, or a member that the type does not declare and whose name has a fault
(`Index.Offends`). Objects without a type chain take any key. Materializing fails exactly if there
is such an entry, and reports the first one in the order of the visit
(`Index.materialize_eq_error_iff`): elements by number, entries by key, and the value of an entry
before its key (`Document.Earlier`).
-/

namespace ObjectGraph

namespace Document

/-- A step into a document: to an element of an array, or to the value under a key of an object. -/
inductive Step where
  | item (i : Nat)
  | entry (key : String)
deriving DecidableEq, Repr

/-- Which of two steps from one document is made first. -/
inductive Step.Before : Step → Step → Prop
  | item {i j : Nat} : i < j → Before (.item i) (.item j)
  | entry {k l : String} : k < l → Before (.entry k) (.entry l)

/-- Which of two paths is done with first. The parts of a document come before the document
itself. -/
inductive Earlier : List Step → List Step → Prop
  | part (s : Step) (path : List Step) : Earlier (s :: path) []
  | step {s t : Step} (path other : List Step) : s.Before t → Earlier (s :: path) (t :: other)
  | within (s : Step) {path other : List Step} :
      Earlier path other → Earlier (s :: path) (s :: other)

theorem Step.Before.not_self {s : Step} : ¬ s.Before s := by
  intro h
  cases h with
  | item hlt => exact Nat.lt_irrefl _ hlt
  | entry hlt => exact String.lt_irrefl _ hlt

theorem Step.Before.asymm {s t : Step} (h : s.Before t) : ¬ t.Before s := by
  intro hback
  cases h with
  | item hlt =>
      cases hback with
      | item hgt => exact Nat.lt_asymm hlt hgt
  | entry hlt =>
      cases hback with
      | entry hgt => exact String.lt_asymm hlt hgt

/-- Of two places at most one is earlier. -/
theorem Earlier.asymm {path other : List Step} (h : Earlier path other) : ¬ Earlier other path := by
  induction h with
  | part s path =>
      intro hback
      cases hback
  | step path other hlt =>
      intro hback
      cases hback with
      | step _ _ hgt => exact hlt.asymm hgt
      | within => exact Step.Before.not_self hlt
  | within s _ ih =>
      intro hback
      cases hback with
      | step _ _ hlt => exact Step.Before.not_self hlt
      | within _ hback => exact ih hback

end Document

namespace Index

open Document (Step Earlier)

variable {index : Index}

/-- Why an entry is refused as a member of a node with that type chain. -/
inductive Refuses (index : Index) (chain : String) : String → Document → PropertyError → Prop
  | header {header : Header} {d : Document} :
      header ≠ .typeName → d ≠ .null → (∀ s, d ≠ .string s) →
      Refuses index chain header.name d (.headerType header)
  | name {key : String} {d : Document} {error : PropertyError} : Header.ofName? key = none →
      key ∉ Entries.keys (index.resolve chain).properties → Name.Fault key error →
        Refuses index chain key d error

/-- Where a document has an entry that is refused, and why. The path ends with the entry's key. -/
inductive Offends (index : Index) : Document → List Step → PropertyError → Prop
  | here {entries : List (String × Document)} {chain key : String} {d : Document}
      {error : PropertyError} :
      Document.typeChain? entries = some chain → Entries.get? key entries = some d →
        index.Refuses chain key d error → Offends index (.object entries) [.entry key] error
  | item {items : List Document} {i : Nat} {item : Document} {path : List Step}
      {error : PropertyError} :
      items[i]? = some item → Offends index item path error →
        Offends index (.array items) (.item i :: path) error
  | entry {entries : List (String × Document)} {key : String} {d : Document} {path : List Step}
      {error : PropertyError} : Entries.get? key entries = some d → Offends index d path error →
        Offends index (.object entries) (.entry key :: path) error

/-- The entry that is refused first. -/
structure OffendsFirst (index : Index) (d : Document) (path : List Step) (error : PropertyError) :
    Prop where
  offends : index.Offends d path error
  first : ∀ other otherError, index.Offends d other otherError → other = path ∨ Earlier path other

/-! ## One entry -/

/-- A header field takes what is read from null and from strings only. -/
theorem takes_iff_of_materializes {header : Header} (hne : header ≠ .typeName) {d : Document}
    {v : Value} (h : index.Materializes d v) : header.Takes v ↔ d = .null ∨ ∃ s, d = .string s := by
  obtain ⟨place, h⟩ := h
  rw [Header.takes_iff hne]
  cases becomes_of_materializeAt h with
  | integer n =>
      rw [Value.ofInteger]
      split <;> simp
  | null | bool | float | string | array | map | node => simp

/-- A node of the chain's type accepts no value of an entry that is refused. -/
theorem Refuses.not_accepts {chain key : String} {d : Document} {error : PropertyError}
    (h : index.Refuses chain key d error) {v : Value} (hv : index.Materializes d v) :
    ¬ (index.instantiateAs chain).Accepts key v := by
  intro haccepts
  rw [Node.Accepts] at haccepts
  cases h with
  | @header header _ hne hnull hstring =>
      rw [Header.ofName?_name] at haccepts
      rcases (takes_iff_of_materializes hne hv).1 haccepts with heq | ⟨s, heq⟩
      · exact hnull heq
      · exact hstring s heq
  | name hplain hnew hfault =>
      rw [hplain] at haccepts
      rcases haccepts with hmem | hvalid
      · exact hnew (mem_declared_instantiateAs.1 hmem)
      · rw [Name.validate_of_fault hfault] at hvalid
        cases hvalid

/-- A write that fails names the reason for which the entry is refused. -/
theorem refuses_of_set {chain key : String} {d : Document} {error : PropertyError} {v : Value}
    {m : Node} (hkey : key ≠ Header.typeName.name) (hv : index.Materializes d v)
    (hdeclared : Entries.keys m.declared = Entries.keys (index.instantiateAs chain).declared)
    (hset : m.set key v = .error error) : index.Refuses chain key d error := by
  rcases Node.set_eq_error hset with ⟨header, hheader, hrefused, rfl⟩ | ⟨hplain, hnew, hinvalid⟩
  · obtain rfl := Header.name_of_ofName? hheader
    have hne : header ≠ .typeName := by
      rintro rfl
      exact hkey rfl
    rw [takes_iff_of_materializes hne hv, not_or, not_exists] at hrefused
    exact .header hne hrefused.1 hrefused.2
  · rw [hdeclared, mem_declared_instantiateAs] at hnew
    exact .name hplain hnew (Name.fault_of_validate hinvalid)

theorem Refuses.ne_typeName {chain key : String} {d : Document} {error : PropertyError}
    (h : index.Refuses chain key d error) : key ≠ Header.typeName.name := by
  cases h with
  | @header header _ hne =>
      cases header with
      | typeName => exact absurd rfl hne
      | id | applicationId => decide
  | name hplain =>
      rintro rfl
      cases hplain

/-- An entry has at most one reason to be refused. -/
theorem Refuses.unique {chain key : String} {d : Document} {error other : PropertyError}
    (h : index.Refuses chain key d error) (h' : index.Refuses chain key d other) :
    error = other := by
  have hreason : ∀ e, index.Refuses chain key d e →
      (∃ header, Header.ofName? key = some header ∧ e = .headerType header) ∨
        (Header.ofName? key = none ∧ Name.validate key = .error e) := by
    intro e he
    cases he with
    | header => exact .inl ⟨_, Header.ofName?_name _, rfl⟩
    | name hplain _ hfault => exact .inr ⟨hplain, Name.validate_of_fault hfault⟩
  rcases hreason _ h with ⟨header, hheader, rfl⟩ | ⟨hplain, hfault⟩
  · rcases hreason _ h' with ⟨header', hheader', rfl⟩ | ⟨hplain', -⟩
    · rw [hheader] at hheader'
      rw [Option.some.inj hheader']
    · rw [hheader] at hplain'
      cases hplain'
  · rcases hreason _ h' with ⟨header', hheader', -⟩ | ⟨-, hfault'⟩
    · rw [hplain] at hheader'
      cases hheader'
    · rw [hfault] at hfault'
      exact Except.error.inj hfault'

/-! ## Documents that are read -/

theorem Offends.ne_nil {d : Document} {path : List Step} {error : PropertyError}
    (h : index.Offends d path error) : path ≠ [] := by
  cases h <;> exact List.cons_ne_nil _ _

/-- A path leads to at most one entry. -/
theorem Offends.unique {d : Document} {path : List Step} {error other : PropertyError}
    (h : index.Offends d path error) (h' : index.Offends d path other) : error = other := by
  induction h with
  | here hchain hget hrefuses =>
      cases h' with
      | here hchain' hget' hrefuses' =>
          rw [hchain] at hchain'
          rw [hget] at hget'
          cases hchain'
          cases hget'
          exact hrefuses.unique hrefuses'
      -- The path ends at the key, so it does not go into the value.
      | entry _ hpart => exact absurd rfl hpart.ne_nil
  | item hget _ ih =>
      cases h' with
      | item hget' hpart' =>
          rw [hget] at hget'
          cases hget'
          exact ih hpart'
  | entry hget hpart ih =>
      cases h' with
      | here => exact absurd rfl hpart.ne_nil
      | entry hget' hpart' =>
          rw [hget] at hget'
          cases hget'
          exact ih hpart'

/-- The type chain of an object stands in its entries. -/
theorem get?_of_typeChain? {entries : List (String × Document)} {chain : String}
    (h : Document.typeChain? entries = some chain) :
    Entries.get? Header.typeName.name entries = some (.string chain) := by
  obtain ⟨d, hget, hstring⟩ := Option.bind_eq_some_iff.1 h
  cases d <;> cases hstring
  exact hget

/-- A document with an entry that is refused is not read. -/
theorem Offends.not_materializes {d : Document} {path : List Step} {error : PropertyError}
    (h : index.Offends d path error) : ∀ v, ¬ index.Materializes d v := by
  induction h with
  | @here entries chain key d error hchain hget hrefuses =>
      rintro v ⟨place, hv⟩
      cases becomes_of_materializeAt hv with
      | map hnone =>
          rw [hchain] at hnone
          cases hnone
      | node hchain' hfill =>
          rw [hchain] at hchain'
          cases hchain'
          obtain ⟨w, hw, haccepts⟩ :=
            accepts_of_fill hfill (key, d) (Entries.mem_of_get? hget) hrefuses.ne_typeName
          exact hrefuses.not_accepts hw haccepts
  | item hget _ ih =>
      rintro v ⟨place, hv⟩
      cases becomes_of_materializeAt hv with
      | array hvalues =>
          have hall := materializeItems_eq_ok hvalues
          obtain ⟨hi, rfl⟩ := List.getElem?_eq_some_iff.1 hget
          exact ih _ (hall.get hi (hall.length_eq ▸ hi))
  | @entry entries key d path error hget hpart ih =>
      rintro v ⟨place, hv⟩
      cases becomes_of_materializeAt hv with
      | map _ hvalues =>
          have hrel := Entries.get?_of_forall₂ (materializeEntries_eq_ok hvalues) key
          rw [hget] at hrel
          generalize Entries.get? key _ = found at hrel
          cases hrel with
          | some hread => exact ih _ hread
      | node hchain hfill =>
          by_cases hkey : key = Header.typeName.name
          · -- The type chain is a text, and a text has no entries.
            rw [hkey, get?_of_typeChain? hchain] at hget
            cases hget
            cases hpart
          · obtain ⟨w, hw, -⟩ := accepts_of_fill hfill (key, d) (Entries.mem_of_get? hget) hkey
            exact ih w hw

/-! ## The first entry that is refused -/

/-- The first offence has one error. -/
theorem OffendsFirst.unique {d : Document} {path other : List Step}
    {error otherError : PropertyError} (h : index.OffendsFirst d path error)
    (h' : index.OffendsFirst d other otherError) : error = otherError := by
  have hpath : other = path := by
    rcases h.first _ _ h'.offends with heq | hearlier
    · exact heq
    · rcases h'.first _ _ h.offends with heq | hback
      · exact heq.symm
      · exact absurd hback hearlier.asymm
  subst hpath
  exact h.offends.unique h'.offends

/-- The first entry in an element is the first in the array, if the elements before it are read. -/
theorem OffendsFirst.array {before after : List Document} {item : Document} {path : List Step}
    {error : PropertyError} (h : index.OffendsFirst item path error)
    (hbefore : ∀ d ∈ before, ∃ v, index.Materializes d v) :
    index.OffendsFirst (.array (before ++ item :: after)) (.item before.length :: path) error := by
  refine ⟨.item (by simp) h.offends, ?_⟩
  intro other otherError hother
  cases hother with
  | @item _ i d rest _ hget hpart =>
      rcases Nat.lt_trichotomy i before.length with hlt | rfl | hgt
      · rw [List.getElem?_append_left hlt] at hget
        obtain ⟨v, hv⟩ := hbefore d (List.mem_of_getElem? hget)
        exact absurd hv (hpart.not_materializes v)
      · rw [List.getElem?_append_right (Nat.le_refl _), Nat.sub_self] at hget
        cases hget
        rcases h.first _ _ hpart with rfl | hearlier
        · exact .inl rfl
        · exact .inr (.within _ hearlier)
      · exact .inr (.step _ _ (.item hgt))

/-- The first entry at or below a key is the first in the object, if there is none at or below the
keys before. -/
theorem offendsFirst_object {before after : List (String × Document)} {key : String} {d : Document}
    {path : List Step} {error : PropertyError}
    (hkeys : Entries.Increasing (before ++ (key, d) :: after))
    (hbefore : ∀ entry ∈ before, ∀ rest e,
      ¬ index.Offends (.object (before ++ (key, d) :: after)) (.entry entry.1 :: rest) e)
    (hoffends : index.Offends (.object (before ++ (key, d) :: after)) (.entry key :: path) error)
    (hfirst : ∀ rest e,
      index.Offends (.object (before ++ (key, d) :: after)) (.entry key :: rest) e →
      rest = path ∨ Earlier path rest) :
    index.OffendsFirst (.object (before ++ (key, d) :: after)) (.entry key :: path) error := by
  refine ⟨hoffends, ?_⟩
  intro other otherError hother
  have hstep : ∃ k rest, other = .entry k :: rest ∧
      k ∈ Entries.keys (before ++ (key, d) :: after) := by
    cases hother with
    | here _ hget => exact ⟨_, _, rfl, Entries.mem_keys_iff_exists_get?.2 ⟨_, hget⟩⟩
    | entry hget => exact ⟨_, _, rfl, Entries.mem_keys_iff_exists_get?.2 ⟨_, hget⟩⟩
  obtain ⟨k, rest, rfl, hk⟩ := hstep
  rw [Entries.keys_append, Entries.keys_cons, List.mem_append, List.mem_cons] at hk
  -- The other path begins with a key before, with the same key or with a key after.
  rcases hk with hk | rfl | hk
  · obtain ⟨entry, hentry, rfl⟩ := List.mem_map.1 hk
    exact absurd hother (hbefore entry hentry rest otherError)
  · rcases hfirst rest otherError hother with rfl | hearlier
    · exact .inl rfl
    · exact .inr (.within _ hearlier)
  · obtain ⟨entry, hentry, rfl⟩ := List.mem_map.1 hk
    rw [Entries.Increasing, List.pairwise_append, List.pairwise_cons] at hkeys
    exact .inr (.step _ _ (.entry (hkeys.2.1.1 entry hentry)))

/-- No entry is refused at or below a key whose value is read and accepted. -/
theorem not_offends_entry {entries : List (String × Document)} {key : String} {d : Document}
    (hget : Entries.get? key entries = some d) (hvalue : ∃ v, index.Materializes d v)
    (hname : ∀ chain e, Document.typeChain? entries = some chain → ¬ index.Refuses chain key d e) :
    ∀ path e, ¬ index.Offends (.object entries) (.entry key :: path) e := by
  intro path e h
  obtain ⟨v, hv⟩ := hvalue
  cases h with
  | here hchain hget' hrefuses =>
      rw [hget] at hget'
      cases hget'
      exact hname _ _ hchain hrefuses
  | entry hget' hpart =>
      rw [hget] at hget'
      cases hget'
      exact hpart.not_materializes v hv

/-- An entry of an object with a type chain has no offence if it is the type chain, or if its value
is read and accepted by the node. -/
theorem not_offends_accepted {entries : List (String × Document)} {chain key : String}
    {d : Document} (hchain : Document.typeChain? entries = some chain)
    (hget : Entries.get? key entries = some d)
    (haccepted : key ≠ Header.typeName.name →
      ∃ v, index.Materializes d v ∧ (index.instantiateAs chain).Accepts key v) :
    ∀ path e, ¬ index.Offends (.object entries) (.entry key :: path) e := by
  by_cases hname : key = Header.typeName.name
  · -- The type chain is a text, which is read, and its key is not looked at.
    apply not_offends_entry hget
    · rw [hname, get?_of_typeChain? hchain] at hget
      rw [← Option.some.inj hget]
      exact ⟨_, [], rfl⟩
    · exact fun _ _ _ hrefuses => hrefuses.ne_typeName hname
  · obtain ⟨v, hv, haccepts⟩ := haccepted hname
    apply not_offends_entry hget ⟨v, hv⟩
    intro chain' e hchain' hrefuses
    rw [hchain] at hchain'
    cases hchain'
    exact hrefuses.not_accepts hv haccepts

/-- An object fails with the first entry in the value under a key, if the keys before are read and
accepted. -/
theorem OffendsFirst.value {before after : List (String × Document)} {key : String} {d : Document}
    {path : List Step} {error : PropertyError} (h : index.OffendsFirst d path error)
    (hkeys : Entries.Increasing (before ++ (key, d) :: after))
    (hbefore : ∀ entry ∈ before, ∀ rest e,
      ¬ index.Offends (.object (before ++ (key, d) :: after)) (.entry entry.1 :: rest) e) :
    index.OffendsFirst (.object (before ++ (key, d) :: after)) (.entry key :: path) error := by
  have hget : Entries.get? key (before ++ (key, d) :: after) = some d :=
    Entries.get?_of_mem hkeys.nodup_keys (List.mem_append_right before List.mem_cons_self)
  apply offendsFirst_object hkeys hbefore (.entry hget h.offends)
  intro rest e hrest
  cases hrest with
  | here =>
      -- This is the key itself, which is looked at after its value.
      obtain ⟨s, path', rfl⟩ := List.exists_cons_of_ne_nil h.offends.ne_nil
      exact .inr (.part s path')
  | entry hget' hpart =>
      rw [hget] at hget'
      cases hget'
      exact h.first rest e hpart

/-- An object fails with a key, if its value is read and so are the keys before. -/
theorem offendsFirst_here {before after : List (String × Document)} {chain key : String}
    {d : Document} {error : PropertyError}
    (hchain : Document.typeChain? (before ++ (key, d) :: after) = some chain)
    (hrefuses : index.Refuses chain key d error) (hvalue : ∃ v, index.Materializes d v)
    (hkeys : Entries.Increasing (before ++ (key, d) :: after))
    (hbefore : ∀ entry ∈ before, ∀ rest e,
      ¬ index.Offends (.object (before ++ (key, d) :: after)) (.entry entry.1 :: rest) e) :
    index.OffendsFirst (.object (before ++ (key, d) :: after)) [.entry key] error := by
  have hget : Entries.get? key (before ++ (key, d) :: after) = some d :=
    Entries.get?_of_mem hkeys.nodup_keys (List.mem_append_right before List.mem_cons_self)
  apply offendsFirst_object hkeys hbefore (.here hchain hget hrefuses)
  intro rest e hrest
  cases hrest with
  | here => exact .inl rfl
  | entry hget' hpart =>
      rw [hget] at hget'
      cases hget'
      obtain ⟨v, hv⟩ := hvalue
      exact absurd hv (hpart.not_materializes v)

/-- What fails, fails with the first entry that is refused. -/
theorem exists_offendsFirst {d : Document} (hd : d.Ordered) : ∀ place error,
    index.materializeAt place d = .error error → ∃ path, index.OffendsFirst d path error := by
  induction hd with
  | null | bool | integer | float | string =>
      intro place error h
      cases h
  | array _ ih =>
      intro place error h
      cases fails_of_materializeAt h with
      | array hitems =>
          obtain ⟨before, item, after, rfl, hbefore, place', hitem⟩ :=
            materializeItems_eq_error hitems
          obtain ⟨path, hpath⟩ := ih item (by simp) place' error hitem
          exact ⟨_, hpath.array hbefore⟩
  | @object entries hkeys _ ih =>
      intro place error h
      cases fails_of_materializeAt h with
      | map hchain hentries =>
          -- Without a type chain no key is refused, so the failing value has the first entry.
          obtain ⟨before, key, d, after, rfl, hbefore, place', hd⟩ :=
            materializeEntries_eq_error hentries
          obtain ⟨path, hpath⟩ := ih (key, d) (by simp) place' error hd
          refine ⟨_, hpath.value hkeys ?_⟩
          intro entry hentry
          apply not_offends_entry
            (Entries.get?_of_mem hkeys.nodup_keys (List.mem_append_left _ hentry))
            (hbefore entry hentry)
          intro chain e hsome
          rw [hchain] at hsome
          cases hsome
      | @node _ chain _ hchain hfill =>
          obtain ⟨before, key, d, after, rfl, hkey, hbefore, place', hfails⟩ := fill_eq_error hfill
          have hpassed : ∀ entry ∈ before, ∀ rest e,
              ¬ index.Offends (.object (before ++ (key, d) :: after))
                (.entry entry.1 :: rest) e := by
            intro entry hentry
            apply not_offends_accepted hchain _ (hbefore entry hentry)
            exact Entries.get?_of_mem hkeys.nodup_keys (List.mem_append_left _ hentry)
          -- Either the value fails, or it is read and then refused under its key.
          rcases hfails with hd | ⟨v, m, hv, hset, hdeclared⟩
          · obtain ⟨path, hpath⟩ := ih (key, d) (by simp) place' error hd
            exact ⟨_, hpath.value hkeys hpassed⟩
          · have hvalue : index.Materializes d v := ⟨place', hv⟩
            exact ⟨_, offendsFirst_here hchain (refuses_of_set hkey hvalue hdeclared hset)
              ⟨v, hvalue⟩ hkeys hpassed⟩

/-- Materializing a document fails exactly if an object in it, at any depth, has a type chain and an
entry that is refused. The error is that of the entry that is refused first. A name has a fault if
it is empty, begins with two at-signs or has a separator of paths in it. -/
theorem materialize_eq_error_iff {d : Document} (hd : d.Ordered) :
    ((∃ error, index.materialize d = .error error) ↔ ∃ path error, index.Offends d path error) ∧
    (∀ error, index.materialize d = .error error ↔ ∃ path, index.OffendsFirst d path error) ∧
    ∀ name : String, (∃ error, Name.Fault name error) ↔
      name = "" ∨ ['@', '@'] <+: name.toList ∨ '.' ∈ name.toList ∨ '/' ∈ name.toList := by
  have hfirst : ∀ error, index.materialize d = .error error →
      ∃ path, index.OffendsFirst d path error :=
    exists_offendsFirst hd []
  have hfails : ∀ path error, index.Offends d path error → ∃ e, index.materialize d = .error e := by
    intro path error h
    cases hresult : index.materialize d with
    | ok v => exact absurd ⟨[], hresult⟩ (h.not_materializes v)
    | error e => exact ⟨e, rfl⟩
  refine ⟨⟨?_, ?_⟩, ?_, fun name => Name.exists_fault_iff⟩
  · rintro ⟨error, h⟩
    obtain ⟨path, hpath⟩ := hfirst error h
    exact ⟨path, error, hpath.offends⟩
  · rintro ⟨path, error, h⟩
    exact hfails path error h
  · intro error
    constructor
    · exact hfirst error
    · rintro ⟨path, hpath⟩
      obtain ⟨e, he⟩ := hfails path error hpath.offends
      obtain ⟨other, hother⟩ := hfirst e he
      rw [he, hother.unique hpath]

end Index

/-- A column with a part that has a number as its id. The name under which the column has the part
has a fault, and so has a key of the object around the column. -/
def Document.faultyColumn : Document :=
  .object [("a", .array [.object [("speckle_type", .string "Kit.Column"), ("x/y.z", .object
    [("id", .integer 7 (by decide) (by decide)), ("speckle_type", .string "Kit.Part")])]]),
    ("a.b", .null)]

theorem Document.ordered_faultyColumn : faultyColumn.Ordered := by
  have hpart : (Document.object [("id", .integer 7 (by decide) (by decide)),
      ("speckle_type", .string "Kit.Part")]).Ordered := by
    refine .object (by rw [Entries.Increasing]; decide) ?_
    rintro entry (_ | ⟨_, _ | ⟨_, ⟨⟩⟩⟩)
    · exact .integer _ _ _
    · exact .string _
  refine .object (by rw [Entries.Increasing]; decide) ?_
  rintro entry (_ | ⟨_, _ | ⟨_, ⟨⟩⟩⟩)
  · refine .array ?_
    rintro item (_ | ⟨_, ⟨⟩⟩)
    refine .object (by rw [Entries.Increasing]; decide) ?_
    rintro entry (_ | ⟨_, _ | ⟨_, ⟨⟩⟩⟩)
    · exact .string _
    · exact hpart
  · exact .null

namespace Index

/-- The id of the part is reported, since the part is visited before the name that it stands under.
The key of the object around the column is not looked at. -/
theorem materialize_faultyColumn :
    Document.faultyColumn.Ordered ∧
      columnIndex.materialize Document.faultyColumn = .error (.headerType .id) ∧
      ∃ path, columnIndex.OffendsFirst Document.faultyColumn path (.headerType .id) ∧
        Document.Earlier path [.entry "a", .item 0, .entry "x/y.z"] := by
  obtain ⟨-, hreported, -⟩ := @materialize_eq_error_iff columnIndex _ Document.ordered_faultyColumn
  have herror : columnIndex.materialize Document.faultyColumn = .error (.headerType .id) := by rfl
  obtain ⟨path, hpath⟩ := (hreported _).1 herror
  have hname : columnIndex.Offends Document.faultyColumn [.entry "a", .item 0, .entry "x/y.z"]
      (.invalidCharacter "x/y.z" '/') := by
    refine .entry rfl (.item rfl (.here rfl rfl (.name rfl (by decide +kernel) ?_)))
    exact Name.fault_of_validate rfl
  refine ⟨Document.ordered_faultyColumn, herror, path, hpath, ?_⟩
  rcases hpath.first _ _ hname with heq | hearlier
  · rw [heq] at hname
    cases hname.unique hpath.offends
  · exact hearlier

end Index

end ObjectGraph
