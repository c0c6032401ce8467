import ObjectGraph.Node
import ObjectGraph.Proofs.Entries.Updates
import ObjectGraph.Proofs.Result

/-!
# Nodes that the operations give

A node is made without members and changed by the operations of `Node`: members are declared,
written and removed, and header fields are set. `Node.Reachable` says that a node comes about in
this way, and `Node.WellFormed` what all such nodes have in common: every member has one name and
stands on one side, and the names of the dynamic members have passed `Name.validate`. One lemma for
each operation gives `Node.Reachable.wellFormed`.

What a write leaves (`Node.written_of_set`) and which writes are accepted (`Node.exists_set_iff`)
hold of every node, reachable or not.
-/

namespace ObjectGraph

namespace Header

@[simp] theorem ofName?_name (header : Header) : ofName? header.name = some header := by
  cases header <;> rfl

theorem name_of_ofName? {name : String} {header : Header} (h : ofName? name = some header) :
    header.name = name := by
  have hfound := List.find?_some h
  rwa [beq_iff_eq] at hfound

/-- The values that a write of the field accepts. -/
inductive Takes : Header → Value → Prop
  | typeName (s : String) : Takes .typeName (.string s)
  | id (s : Option String) : Takes .id (Value.ofString? s)
  | applicationId (s : Option String) : Takes .applicationId (Value.ofString? s)

/-- The ids take null and texts. -/
theorem takes_iff {header : Header} (h : header ≠ .typeName) {v : Value} :
    header.Takes v ↔ v = .null ∨ ∃ s, v = .string s := by
  constructor
  · intro htakes
    cases htakes with
    | typeName s => exact absurd rfl h
    | id s | applicationId s =>
        cases s with
        | none => exact .inl rfl
        | some s => exact .inr ⟨s, rfl⟩
  · rintro (rfl | ⟨s, rfl⟩)
    · cases header with
      | typeName => exact absurd rfl h
      | id => exact .id none
      | applicationId => exact .applicationId none
    · cases header with
      | typeName => exact absurd rfl h
      | id => exact .id (some s)
      | applicationId => exact .applicationId (some s)

end Header

namespace Node

variable {n m : Node} {name : String} {value : Value} {previous : Option Value}

/-- What the operations on a node can lead to. -/
inductive Reachable : Node → Prop
  | new (typeName : String) : Reachable (.new typeName)
  | declare {n : Node} (name : String) : Reachable n → Reachable (n.declare name)
  | set {n m : Node} {name : String} {value : Value} {previous : Option Value} :
      Reachable n → n.set name value = .ok (previous, m) → Reachable m
  | remove {n : Node} (name : String) : Reachable n → Reachable (n.remove name).2
  | setTypeName {n : Node} (typeName : String) : Reachable n → Reachable { n with typeName }
  | setId {n : Node} (id : Option String) : Reachable n → Reachable { n with id }
  | setApplicationId {n : Node} (applicationId : Option String) :
      Reachable n → Reachable { n with applicationId }
  | setSchemaVersion {n : Node} (v : Version) : Reachable n → Reachable (n.setSchemaVersion v)

/-- The names of a node: each once, on one side, and the dynamic ones valid and not those of header
fields. -/
structure WellFormed (n : Node) : Prop where
  declared : (Entries.keys n.declared).Nodup
  dynamic : (Entries.keys n.dynamic).Nodup
  oneSide : ∀ name ∈ Entries.keys n.dynamic, name ∉ Entries.keys n.declared
  plain : ∀ name ∈ Entries.keys n.dynamic, Header.ofName? name = none
  valid : ∀ name ∈ Entries.keys n.dynamic, Name.validate name = .ok ()

/-! ## Writing -/

/-- What a write leaves: nothing but the value of the member is new, and no member becomes
declared. -/
structure Written (n : Node) (name : String) (value : Value) (m : Node) : Prop where
  get? : ∀ other, m.get? other = if name = other then some value else n.get? other
  declared : Entries.keys m.declared = Entries.keys n.declared

theorem get?_of_header {header : Header} (h : Header.ofName? name = some header) :
    n.get? name = some (n.header header) := by
  rw [Node.get?, h]

theorem get?_of_plain (h : Header.ofName? name = none) :
    n.get? name = (Entries.get? name n.declared).or (Entries.get? name n.dynamic) := by
  rw [Node.get?, h]

/-- Reading a name that is not a header field's is a lookup in the members. -/
theorem get?_eq_get?_members (h : Header.ofName? name = none) :
    n.get? name = Entries.get? name (n.members .all) := by
  rw [get?_of_plain h, members, Entries.get?_append]

theorem get?_declared_of_mem (hplain : Header.ofName? name = none)
    (hmem : name ∈ Entries.keys n.declared) : Entries.get? name n.declared = n.get? name := by
  obtain ⟨v, hv⟩ := Entries.mem_keys_iff_exists_get?.1 hmem
  rw [get?_of_plain hplain, hv, Option.some_or]

theorem get?_dynamic_of_not_mem (hplain : Header.ofName? name = none)
    (hnot : name ∉ Entries.keys n.declared) : Entries.get? name n.dynamic = n.get? name := by
  rw [get?_of_plain hplain, Entries.get?_eq_none_iff.2 hnot, Option.none_or]

/-- What is read under a name that is not a header field's is a member. -/
theorem mem_members_of_get? (hplain : Header.ofName? name = none) {v : Value}
    (h : n.get? name = some v) : (name, v) ∈ n.members .all := by
  rw [get?_eq_get?_members hplain] at h
  exact Entries.mem_of_get? h

theorem takes_header (n : Node) (header : Header) : header.Takes (n.header header) := by
  cases header with
  | typeName => exact .typeName n.typeName
  | id => exact .id n.id
  | applicationId => exact .applicationId n.applicationId

/-- A header field is written only with a value that it takes. -/
theorem takes_of_setHeader {header : Header} (h : n.setHeader header value = .ok m) :
    header.Takes value := by
  cases header with
  | typeName =>
      cases value with
      | string s => exact .typeName s
      | _ => cases h
  | id =>
      cases value with
      | null => exact .id none
      | string s => exact .id (some s)
      | _ => cases h
  | applicationId =>
      cases value with
      | null => exact .applicationId none
      | string s => exact .applicationId (some s)
      | _ => cases h

/-- A write of a header field leaves the members and the other fields. -/
theorem setHeader_eq_ok {header : Header} (h : n.setHeader header value = .ok m) :
    m.declared = n.declared ∧ m.dynamic = n.dynamic ∧
      ∀ other, m.header other = if header = other then value else n.header other := by
  cases header <;> cases value <;> cases h
  all_goals
    refine ⟨rfl, rfl, ?_⟩
    intro other
    cases other <;> rfl

/-- A write answers with what was read before. One of a header field leaves the members, one of a
declared member keeps its place, and any other name is checked and written on the dynamic side. -/
theorem set_cases (h : n.set name value = .ok (previous, m)) : previous = n.get? name ∧
    ((∃ header, Header.ofName? name = some header ∧ n.setHeader header value = .ok m) ∨
    (Header.ofName? name = none ∧ name ∈ Entries.keys n.declared ∧
      m = { n with declared := Entries.insert name value n.declared }) ∨
    (Header.ofName? name = none ∧ name ∉ Entries.keys n.declared ∧ Name.validate name = .ok () ∧
      m = { n with dynamic := Entries.insert name value n.dynamic })) := by
  rw [set] at h
  cases hname : Header.ofName? name with
  | some header =>
      rw [hname] at h
      obtain ⟨written, hset, ⟨⟩⟩ := bind_pure_eq_ok_iff.1 h
      exact ⟨(get?_of_header hname).symm, .inl ⟨header, rfl, hset⟩⟩
  | none =>
      rw [hname] at h
      rw [get?_of_plain hname]
      cases hget : Entries.get? name n.declared with
      | some old =>
          rw [hget] at h
          cases h
          exact ⟨rfl, .inr (.inl ⟨rfl, Entries.mem_keys_iff_exists_get?.2 ⟨old, hget⟩, rfl⟩)⟩
      | none =>
          rw [hget] at h
          obtain ⟨⟨⟩, hvalid, ⟨⟩⟩ := bind_pure_eq_ok_iff.1 h
          exact ⟨rfl, .inr (.inr ⟨rfl, Entries.get?_eq_none_iff.1 hget, hvalid, rfl⟩)⟩

/-- The version is written as any other member. -/
theorem set_schemaVersion (n : Node) (v : Version) :
    ∃ previous, n.set Name.schemaVersion (.string v.toText) =
      .ok (previous, n.setSchemaVersion v) := by
  have hplain : Header.ofName? Name.schemaVersion = none := by decide
  have hvalid : Name.validate Name.schemaVersion = .ok () := by decide
  rw [set, hplain, setSchemaVersion, Entries.contains]
  cases Entries.get? Name.schemaVersion n.declared with
  | some old => exact ⟨some old, rfl⟩
  | none =>
      dsimp only
      rw [hvalid]
      exact ⟨_, rfl⟩

/-- Reading depends on the header fields and on what the members have under the name. -/
theorem get?_congr {other : String} (hheader : ∀ field, m.header field = n.header field)
    (hmembers : (Entries.get? other m.declared).or (Entries.get? other m.dynamic) =
      (Entries.get? other n.declared).or (Entries.get? other n.dynamic)) :
    m.get? other = n.get? other := by
  cases hother : Header.ofName? other with
  | some field => rw [get?_of_header hother, get?_of_header hother, hheader]
  | none => rw [get?_of_plain hother, get?_of_plain hother, hmembers]

/-- Writing a member, not a header field, changes one reading. -/
theorem get?_of_members (hplain : Header.ofName? name = none)
    (hheader : ∀ field, m.header field = n.header field)
    (hmembers : ∀ other, (Entries.get? other m.declared).or (Entries.get? other m.dynamic) =
      if name = other then some value
      else (Entries.get? other n.declared).or (Entries.get? other n.dynamic)) (other : String) :
    m.get? other = if name = other then some value else n.get? other := by
  split
  · rename_i heq
    subst heq
    rw [get?_of_plain hplain, hmembers, if_pos rfl]
  · rename_i hne
    apply get?_congr hheader
    rw [hmembers, if_neg hne]

/-- Writing a header field changes one reading. -/
theorem get?_of_fields {header : Header} (hname : Header.ofName? name = some header)
    (hdeclared : m.declared = n.declared) (hdynamic : m.dynamic = n.dynamic)
    (hheader : ∀ field, m.header field = if header = field then value else n.header field)
    (other : String) : m.get? other = if name = other then some value else n.get? other := by
  cases hother : Header.ofName? other with
  | some field =>
      rw [get?_of_header hother, get?_of_header hother, hheader, ← Header.name_of_ofName? hname,
        ← Header.name_of_ofName? hother]
      by_cases heq : header = field
      · rw [if_pos heq, if_pos (congrArg Header.name heq)]
      · have hne : header.name ≠ field.name := by
          intro hnames
          have hfields := congrArg Header.ofName? hnames
          rw [Header.ofName?_name, Header.ofName?_name] at hfields
          exact heq (Option.some.inj hfields)
        rw [if_neg heq, if_neg hne]
  | none =>
      have hne : name ≠ other := by
        rintro rfl
        rw [hname] at hother
        cases hother
      rw [get?_of_plain hother, get?_of_plain hother, hdeclared, hdynamic, if_neg hne]

theorem written_insertDeclared (hname : Header.ofName? name = none)
    (hmem : name ∈ Entries.keys n.declared) (value : Value) :
    n.Written name value { n with declared := Entries.insert name value n.declared } := by
  refine ⟨get?_of_members hname (by rintro (_ | _ | _) <;> rfl) ?_,
    Entries.keys_insert_of_mem hmem value⟩
  intro other
  rw [Entries.get?_insert]
  split <;> rfl

theorem written_insertDynamic (hname : Header.ofName? name = none)
    (hmem : name ∉ Entries.keys n.declared) (value : Value) :
    n.Written name value { n with dynamic := Entries.insert name value n.dynamic } := by
  refine ⟨get?_of_members hname (by rintro (_ | _ | _) <;> rfl) ?_, rfl⟩
  intro other
  rw [Entries.get?_insert]
  split
  · -- The name is not declared, so reading comes to the dynamic side.
    rename_i heq
    subst heq
    rw [Entries.get?_eq_none_iff.2 hmem, Option.none_or]
  · rfl

/-- A write changes one member. -/
theorem written_of_set (h : n.set name value = .ok (previous, m)) : n.Written name value m := by
  obtain ⟨-, ⟨header, hname, hset⟩ | ⟨hname, hmem, rfl⟩ | ⟨hname, hmem, -, rfl⟩⟩ := set_cases h
  · obtain ⟨hdeclared, hdynamic, hheader⟩ := setHeader_eq_ok hset
    exact ⟨get?_of_fields hname hdeclared hdynamic hheader, by rw [hdeclared]⟩
  · exact written_insertDeclared hname hmem value
  · exact written_insertDynamic hname hmem value

/-- Whether a write is accepted: the value suits the header field, or the name is declared, or it is
a valid name. -/
def Accepts (n : Node) (name : String) (value : Value) : Prop :=
  match Header.ofName? name with
  | some header => header.Takes value
  | none => name ∈ Entries.keys n.declared ∨ Name.validate name = .ok ()

/-- Which writes are accepted depends on the declared names only. -/
theorem accepts_congr (h : Entries.keys m.declared = Entries.keys n.declared) :
    m.Accepts name value ↔ n.Accepts name value := by
  rw [Accepts, Accepts, h]

theorem exists_setHeader {header : Header} (h : header.Takes value) :
    ∃ m, n.setHeader header value = .ok m := by
  rcases h with s | s | s
  · exact ⟨_, rfl⟩
  · cases s <;> exact ⟨_, rfl⟩
  · cases s <;> exact ⟨_, rfl⟩

/-- Exactly the accepted writes succeed. -/
theorem exists_set_iff :
    (∃ previous m, n.set name value = .ok (previous, m)) ↔ n.Accepts name value := by
  constructor
  · rintro ⟨previous, m, h⟩
    obtain ⟨-, ⟨header, hname, hset⟩ | ⟨hname, hmem, -⟩ | ⟨hname, -, hvalid, -⟩⟩ := set_cases h
    · rw [Accepts, hname]
      exact takes_of_setHeader hset
    · rw [Accepts, hname]
      exact .inl hmem
    · rw [Accepts, hname]
      exact .inr hvalid
  · intro h
    rw [Accepts] at h
    rw [set]
    cases hname : Header.ofName? name with
    | some header =>
        rw [hname] at h
        obtain ⟨m, hset⟩ := exists_setHeader (n := n) h
        refine ⟨some (n.header header), m, ?_⟩
        dsimp only
        rw [hset, ok_bind]
        rfl
    | none =>
        rw [hname] at h
        cases hget : Entries.get? name n.declared with
        | some old => exact ⟨some old, _, rfl⟩
        | none =>
            rcases h with hmem | hvalid
            · exact absurd hmem (Entries.get?_eq_none_iff.1 hget)
            · dsimp only
              rw [hvalid]
              exact ⟨_, _, rfl⟩

/-- A header field that refuses a value reports itself. -/
theorem setHeader_eq_error {header : Header} {error : PropertyError}
    (h : n.setHeader header value = .error error) :
    ¬ header.Takes value ∧ error = .headerType header := by
  constructor
  · intro htakes
    obtain ⟨m, hset⟩ := exists_setHeader (n := n) htakes
    rw [h] at hset
    cases hset
  · cases header <;> cases value <;> cases h <;> rfl

/-- Only a header field refuses a value. Any other write that fails has a name that is new and not
valid. -/
theorem set_eq_error {error : PropertyError} (h : n.set name value = .error error) :
    (∃ header, Header.ofName? name = some header ∧ ¬ header.Takes value ∧
        error = .headerType header) ∨
      (Header.ofName? name = none ∧ name ∉ Entries.keys n.declared ∧
        Name.validate name = .error error) := by
  rw [set] at h
  cases hname : Header.ofName? name with
  | some header =>
      rw [hname] at h
      exact .inl ⟨header, rfl, setHeader_eq_error (bind_pure_eq_error_iff.1 h)⟩
  | none =>
      rw [hname] at h
      cases hget : Entries.get? name n.declared with
      | some old =>
          rw [hget] at h
          cases h
      | none =>
          rw [hget] at h
          exact .inr ⟨rfl, Entries.get?_eq_none_iff.1 hget, bind_pure_eq_error_iff.1 h⟩

/-! ## Declaring and removing -/

theorem declare_of_mem (h : name ∈ Entries.keys n.declared) : n.declare name = n := by
  rw [declare, if_pos ((Entries.contains_iff_mem_keys _ _).2 h)]

/-- A new slot comes last and takes the value of the dynamic member of the name. -/
theorem declare_of_not_mem (h : name ∉ Entries.keys n.declared) : n.declare name =
    { n with
      declared := n.declared ++ [(name, (Entries.get? name n.dynamic).getD .null)]
      dynamic := Entries.erase name n.dynamic } := by
  rw [declare, if_neg fun hcontains => h ((Entries.contains_iff_mem_keys _ _).1 hcontains),
    Entries.insert_of_not_mem h]

/-- The answer of a removal is the member that the name has on one of the two sides. -/
theorem fst_remove (n : Node) (name : String) :
    (n.remove name).1 = Entries.get? name (n.members .all) := by
  rw [remove, members, Entries.get?_append]
  cases Entries.get? name n.declared with
  | some old => rfl
  | none => rfl

theorem snd_remove_of_mem (h : name ∈ Entries.keys n.declared) :
    (n.remove name).2 = { n with declared := Entries.insert name .null n.declared } := by
  obtain ⟨old, hold⟩ := Entries.mem_keys_iff_exists_get?.1 h
  rw [remove, hold]

theorem snd_remove_of_not_mem (h : name ∉ Entries.keys n.declared) :
    (n.remove name).2 = { n with dynamic := Entries.erase name n.dynamic } := by
  rw [remove, Entries.get?_eq_none_iff.2 h]

/-! ## Names of a well-formed node -/

/-- The members of a well-formed node have distinct names. -/
theorem WellFormed.nodup_memberNames (h : n.WellFormed) : (n.memberNames .all).Nodup := by
  rw [memberNames, members, Entries.keys_append]
  apply h.declared.append h.dynamic
  intro name hdeclared hdynamic
  exact h.oneSide name hdynamic hdeclared

/-- The value of a member is read under its name, and nothing else is. -/
theorem WellFormed.get?_eq_some_iff (h : n.WellFormed) (hplain : Header.ofName? name = none)
    {v : Value} : n.get? name = some v ↔ (name, v) ∈ n.members .all := by
  constructor
  · exact mem_members_of_get? hplain
  · intro hmem
    rw [get?_eq_get?_members hplain]
    exact Entries.get?_of_mem h.nodup_memberNames hmem

/-- No dynamic member has the name of a header field. -/
theorem WellFormed.get?_dynamic_header (h : n.WellFormed) (header : Header) :
    Entries.get? header.name n.dynamic = none := by
  rw [Entries.get?_eq_none_iff]
  intro hmem
  have hplain := h.plain _ hmem
  rw [Header.ofName?_name] at hplain
  cases hplain

/-- The dynamic members are those that are read and neither declared nor a header field. -/
theorem WellFormed.mem_dynamic_iff (h : n.WellFormed) :
    name ∈ Entries.keys n.dynamic ↔
      Header.ofName? name = none ∧ name ∉ Entries.keys n.declared ∧ ∃ v, n.get? name = some v := by
  constructor
  · intro hmem
    have hplain := h.plain name hmem
    have hnot := h.oneSide name hmem
    rw [← get?_dynamic_of_not_mem hplain hnot]
    exact ⟨hplain, hnot, Entries.mem_keys_iff_exists_get?.1 hmem⟩
  · rintro ⟨hplain, hnot, hread⟩
    rw [← get?_dynamic_of_not_mem hplain hnot] at hread
    exact Entries.mem_keys_iff_exists_get?.2 hread

/-! ## Reachable nodes -/

theorem wellFormed_new (typeName : String) : (new typeName).WellFormed where
  declared := List.nodup_nil
  dynamic := List.nodup_nil
  oneSide := fun _ h => by cases h
  plain := fun _ h => by cases h
  valid := fun _ h => by cases h

/-- Only the names count. -/
theorem WellFormed.congr (h : n.WellFormed)
    (hdeclared : Entries.keys m.declared = Entries.keys n.declared)
    (hdynamic : Entries.keys m.dynamic = Entries.keys n.dynamic) : m.WellFormed where
  declared := by rw [hdeclared]; exact h.declared
  dynamic := by rw [hdynamic]; exact h.dynamic
  oneSide := by rw [hdeclared, hdynamic]; exact h.oneSide
  plain := by rw [hdynamic]; exact h.plain
  valid := by rw [hdynamic]; exact h.valid

/-- Writing a valid free name among the dynamic members keeps a node well-formed. -/
theorem WellFormed.insertDynamic (h : n.WellFormed) (hdeclared : name ∉ Entries.keys n.declared)
    (hplain : Header.ofName? name = none) (hvalid : Name.validate name = .ok ()) (value : Value) :
    WellFormed { n with dynamic := Entries.insert name value n.dynamic } where
  declared := h.declared
  dynamic := Entries.nodup_keys_insert h.dynamic name value
  oneSide := by
    intro other hother
    rcases Entries.mem_keys_insert.1 hother with rfl | hold
    · exact hdeclared
    · exact h.oneSide other hold
  plain := by
    intro other hother
    rcases Entries.mem_keys_insert.1 hother with rfl | hold
    · exact hplain
    · exact h.plain other hold
  valid := by
    intro other hother
    rcases Entries.mem_keys_insert.1 hother with rfl | hold
    · exact hvalid
    · exact h.valid other hold

/-- Dropping a dynamic member leaves a part of the names. -/
theorem WellFormed.eraseDynamic (h : n.WellFormed) (name : String) :
    WellFormed { n with dynamic := Entries.erase name n.dynamic } := by
  have hsubset : Entries.keys (Entries.erase name n.dynamic) ⊆ Entries.keys n.dynamic := by
    rw [Entries.keys_erase]
    exact List.erase_subset
  exact {
    declared := h.declared
    dynamic := Entries.nodup_keys_erase h.dynamic name
    oneSide := fun other hother => h.oneSide other (hsubset hother)
    plain := fun other hother => h.plain other (hsubset hother)
    valid := fun other hother => h.valid other (hsubset hother) }

/-- Declaring a member keeps a node well-formed. -/
theorem WellFormed.declare (h : n.WellFormed) (name : String) : (n.declare name).WellFormed := by
  by_cases hmem : name ∈ Entries.keys n.declared
  · rwa [declare_of_mem hmem]
  · have hdropped := h.eraseDynamic name
    have hdeclared := Entries.nodup_keys_insert h.declared name
      ((Entries.get? name n.dynamic).getD .null)
    rw [Entries.insert_of_not_mem hmem] at hdeclared
    rw [declare_of_not_mem hmem]
    refine ⟨hdeclared, hdropped.dynamic, ?_, hdropped.plain, hdropped.valid⟩
    intro other hother hslot
    rw [Entries.keys_append, List.mem_append] at hslot
    rcases hslot with hold | hnew
    · exact hdropped.oneSide other hother hold
    · -- The name has left the dynamic side.
      obtain rfl := List.mem_singleton.1 hnew
      rw [Entries.keys_erase] at hother
      exact h.dynamic.not_mem_erase hother

/-- Writing a member keeps a node well-formed. -/
theorem WellFormed.set (h : n.WellFormed) (hset : n.set name value = .ok (previous, m)) :
    m.WellFormed := by
  obtain ⟨-, ⟨header, -, hheader⟩ | ⟨-, hmem, rfl⟩ | ⟨hplain, hmem, hvalid, rfl⟩⟩ := set_cases hset
  · obtain ⟨hdeclared, hdynamic, -⟩ := setHeader_eq_ok hheader
    exact h.congr (by rw [hdeclared]) (by rw [hdynamic])
  · exact h.congr (Entries.keys_insert_of_mem hmem value) rfl
  · exact h.insertDynamic hmem hplain hvalid value

theorem WellFormed.remove (h : n.WellFormed) (name : String) : (n.remove name).2.WellFormed := by
  by_cases hmem : name ∈ Entries.keys n.declared
  · rw [snd_remove_of_mem hmem]
    exact h.congr (Entries.keys_insert_of_mem hmem _) rfl
  · rw [snd_remove_of_not_mem hmem]
    exact h.eraseDynamic name

/-- What the operations give is well formed. -/
theorem Reachable.wellFormed (h : n.Reachable) : n.WellFormed := by
  induction h with
  | new typeName => exact wellFormed_new typeName
  | declare name _ ih => exact ih.declare name
  | set _ hset ih => exact ih.set hset
  | remove name _ ih => exact ih.remove name
  | setTypeName _ _ ih => exact ih.congr rfl rfl
  | setId _ _ ih => exact ih.congr rfl rfl
  | setApplicationId _ _ ih => exact ih.congr rfl rfl
  | @setSchemaVersion n v _ ih =>
      obtain ⟨previous, hset⟩ := n.set_schemaVersion v
      exact ih.set hset

/-! ## Nodes with declared names -/

theorem header_declare (n : Node) (name : String) (header : Header) :
    (n.declare name).header header = n.header header := by
  rw [Node.declare]
  split
  · rfl
  · cases header <;> rfl

theorem header_withMembers (typeName : String) (names : List String) (header : Header) :
    (withMembers typeName names).header header = (new typeName).header header := by
  suffices h : ∀ n : Node, (names.foldl Node.declare n).header header = n.header header from
    h (new typeName)
  induction names with
  | nil => exact fun n => rfl
  | cons name rest ih => exact fun n => (ih _).trans (header_declare n name header)

/-- Setting the type chain leaves the other header fields. -/
theorem header_setTypeName (n : Node) (typeName : String) {header : Header}
    (h : header ≠ .typeName) : Node.header { n with typeName } header = n.header header := by
  cases header with
  | typeName => exact absurd rfl h
  | id => rfl
  | applicationId => rfl

theorem typeName_withMembers (typeName : String) (names : List String) :
    (withMembers typeName names).typeName = typeName :=
  Value.string.inj (header_withMembers typeName names .typeName)

theorem reachable_withMembers (typeName : String) (names : List String) :
    (withMembers typeName names).Reachable := by
  suffices h : ∀ n : Node, n.Reachable →
    (names.foldl Node.declare n).Reachable from h _ (.new typeName)
  induction names with
  | nil => exact fun n hn => hn
  | cons name rest ih => exact fun n hn => ih _ (hn.declare name)

/-- Declaring a name of a node without dynamic members adds a null member, if the name is new. -/
theorem declare_of_noDynamic (h : n.dynamic = []) (name : String) :
    (n.declare name).dynamic = [] ∧ ∀ other, Entries.get? other (n.declare name).declared =
      (Entries.get? other n.declared).or (if name = other then some .null else none) := by
  by_cases hmem : name ∈ Entries.keys n.declared
  · rw [declare_of_mem hmem]
    refine ⟨h, ?_⟩
    intro other
    split
    · rename_i heq
      subst heq
      obtain ⟨old, hold⟩ := Entries.mem_keys_iff_exists_get?.1 hmem
      rw [hold, Option.some_or]
    · rw [Option.or_none]
  · rw [declare_of_not_mem hmem, h]
    refine ⟨rfl, ?_⟩
    intro other
    rw [Entries.get?_append]
    rfl

/-- The members of a new node are the given names, all of them declared and null. -/
theorem withMembers_members (typeName : String) (names : List String) :
    (withMembers typeName names).dynamic = [] ∧
      ∀ name, Entries.get? name (withMembers typeName names).declared =
        if name ∈ names then some .null else none := by
  suffices h : ∀ n : Node, n.dynamic = [] → (names.foldl Node.declare n).dynamic = [] ∧
      ∀ name, Entries.get? name (names.foldl Node.declare n).declared =
        (Entries.get? name n.declared).or (if name ∈ names then some .null else none) by
    exact h (new typeName) rfl
  induction names with
  | nil =>
      intro n hn
      exact ⟨hn, fun name => by rw [List.foldl_nil, if_neg List.not_mem_nil, Option.or_none]⟩
  | cons first rest ih =>
      intro n hn
      obtain ⟨hdynamic, hdeclared⟩ := declare_of_noDynamic hn first
      obtain ⟨hdynamic', hdeclared'⟩ := ih (n.declare first) hdynamic
      refine ⟨hdynamic', ?_⟩
      intro name
      rw [List.foldl_cons, hdeclared', hdeclared, Option.or_assoc]
      by_cases heq : first = name
      · subst heq
        rw [if_pos rfl, if_pos List.mem_cons_self, Option.some_or]
      · simp [heq, Ne.symm heq]

theorem mem_declared_withMembers {typeName : String} {names : List String} :
    name ∈ Entries.keys (withMembers typeName names).declared ↔ name ∈ names := by
  rw [Entries.mem_keys_iff_exists_get?, (withMembers_members typeName names).2]
  split <;> simp [*]

end Node

end ObjectGraph
