import ObjectGraph.Proofs.Result
import ObjectGraph.Proofs.Text
import ObjectGraph.Version

/-!
# The grammar of version texts

Between blanks, a version is three numbers of 32 bits with dots between them, each as one or more
digits after at most one plus sign. The grammar is given on its own (`Text.Decimal`,
`Version.Component`), and `Version.ofText` reads exactly the texts it has. For a text it does not
have, the fault is that of the first part that is not such a number, if that is one of the first
three, and the number of parts otherwise (`Version.Refused`).
-/

namespace ObjectGraph

/-! ## Versions as text

The text of a version is read back as that version (`Version.ofText_toText`). It consists of digits
and dots: trimming leaves it alone, cutting at the dots gives the three numbers, and each of them is
in the range of a component.
-/

namespace Version

/-- A component is read back from its decimal text. -/
theorem component?_repr (n : UInt32) : component? n.toNat.repr = some n := by
  have hbound : n.toNat ≤ componentCount - 1 := Nat.le_pred_of_lt n.toNat_lt
  rw [component?, Text.readUnsigned?_repr hbound, Option.map_some, UInt32.ofNat_toNat]

/-- The texts of the three numbers. -/
def parts (v : Version) : List String :=
  [v.major.toNat.repr, v.minor.toNat.repr, v.patch.toNat.repr]

theorem isDigit_of_mem_parts {v : Version} {part : String} (hpart : part ∈ v.parts) {c : Char}
    (hc : c ∈ part.toList) : c.isDigit = true := by
  simp only [parts, List.mem_cons, List.not_mem_nil, or_false] at hpart
  rcases hpart with rfl | rfl | rfl <;> exact Text.isDigit_of_mem_repr hc

theorem segments_toText (v : Version) : Text.segments '.' v.toText = v.parts := by
  refine Text.segments_joined (List.cons_ne_nil _ _) ?_
  intro part hpart hdot
  exact absurd (isDigit_of_mem_parts hpart hdot) (by decide)

/-- A written version has no blanks to trim. -/
theorem trim_toText (v : Version) : Text.trim v.toText = v.toText := by
  have hblank : ∀ c ∈ v.toText.toList, Text.isBlank c = false := by
    intro c hc
    rcases Text.mem_joined hc with rfl | ⟨part, hpart, hc⟩
    · decide
    · exact Text.isBlank_of_isDigit (isDigit_of_mem_parts hpart hc)
  exact Text.trim_eq_self hblank

/-- The text of a version is read back as the version. -/
theorem ofText_toText (v : Version) : ofText v.toText = .ok v := by
  rw [ofText, trim_toText, segments_toText]
  simp only [parts, ofParts, takeComponent, component?_repr, ok_bind, List.isEmpty_nil, if_true]
  rfl

/-! ## Texts that are versions -/

/-! ## Components -/

/-- The text of one of the three numbers. -/
def Component (part : String) (n : UInt32) : Prop :=
  Text.Unsigned 4294967295 part.toList n.toNat

/-- The reader of parts reads exactly the components. -/
theorem component?_eq_some_iff {part : String} {n : UInt32} :
    component? part = some n ↔ Component part n := by
  rw [component?, Option.map_eq_some_iff, Component]
  constructor
  · rintro ⟨m, hread, rfl⟩
    have hm : m < UInt32.size := Nat.lt_of_le_pred (by decide) (Text.readUnsigned?_le hread)
    rw [UInt32.toNat_ofNat_of_lt' hm]
    exact Text.readUnsigned?_eq_some_iff.1 hread
  · intro h
    exact ⟨n.toNat, Text.readUnsigned?_eq_some_iff.2 h, UInt32.ofNat_toNat⟩

theorem component?_eq_none_iff {part : String} :
    component? part = none ↔ ∀ n, ¬ Component part n := by
  simp only [Option.eq_none_iff_forall_not_mem, Option.mem_def, component?_eq_some_iff]

/-- What is wrong with the parts of a text that is not a version. -/
inductive Refused (parts : List String) : Fault → Prop where
  /-- One of the first three parts there are is not a number. -/
  | component {part : String} (first : part ∈ parts.take 3) (h : ∀ n, ¬ Component part n) :
      Refused parts .component
  /-- The first three parts are numbers, but there are not three. -/
  | count (h : parts.length ≠ 3) (numbers : ∀ part ∈ parts.take 3, ∃ n, Component part n) :
      Refused parts .count

/-- Parts are refused for one fault only. -/
theorem Refused.unique {parts : List String} {f g : Fault} (hf : Refused parts f)
    (hg : Refused parts g) : f = g := by
  cases hf with
  | component first h =>
      cases hg with
      | component => rfl
      | count _ numbers =>
          obtain ⟨n, hn⟩ := numbers _ first
          exact absurd hn (h n)
  | count _ numbers =>
      cases hg with
      | component first h =>
          obtain ⟨n, hn⟩ := numbers _ first
          exact absurd hn (h n)
      | count => rfl

/-! ## Reading parts -/

variable {parts rest : List String} {part : String} {n : UInt32} {v : Version} {fault : Fault}

/-- A part is taken if there is one and it is a component. -/
theorem takeComponent_eq_ok_iff :
    takeComponent parts = .ok (n, rest) ↔ ∃ part, parts = part :: rest ∧ Component part n := by
  constructor
  · intro h
    rw [takeComponent.eq_def] at h
    split at h
    next => cases h
    next part _ =>
      split at h
      next hn =>
        cases h
        exact ⟨part, rfl, component?_eq_some_iff.1 hn⟩
      next => cases h
  · rintro ⟨part, rfl, hn⟩
    rw [takeComponent, component?_eq_some_iff.2 hn]

/-- Behind fewer than three numbers, the part that is not read is the fault of the whole. -/
theorem refused_of_takeComponent (front : List String)
    (hfront : ∀ part ∈ front, ∃ n, Component part n) (hlength : front.length < 3)
    (h : takeComponent rest = .error fault) : Refused (front ++ rest) fault := by
  have htake : front.take 3 = front := List.take_of_length_le (Nat.le_of_lt hlength)
  cases rest with
  | nil =>
      cases h
      rw [List.append_nil]
      exact .count (Nat.ne_of_lt hlength) (by rwa [htake])
  | cons part rest =>
      rw [takeComponent] at h
      split at h
      next => cases h
      next hnone =>
        cases h
        have hfirst : part ∈ (front ++ part :: rest).take 3 := by
          rw [List.take_append, htake, List.take_cons (Nat.sub_pos_of_lt hlength)]
          simp
        exact .component hfirst (component?_eq_none_iff.1 hnone)

/-- Parts are a version exactly when they are three components. -/
theorem ofParts_eq_ok_iff :
    ofParts parts = .ok v ↔ ∃ major minor patch, parts = [major, minor, patch] ∧
      Component major v.major ∧ Component minor v.minor ∧ Component patch v.patch := by
  constructor
  · intro h
    simp only [ofParts, bind_eq_ok_iff, Prod.exists, takeComponent_eq_ok_iff] at h
    obtain ⟨a, _, ⟨major, rfl, ha⟩, b, _, ⟨minor, rfl, hb⟩, c, rest, ⟨patch, rfl, hc⟩, h⟩ := h
    split at h
    next hrest =>
      cases h
      rw [List.isEmpty_iff.1 hrest]
      exact ⟨major, minor, patch, rfl, ha, hb, hc⟩
    next => cases h
  · rintro ⟨major, minor, patch, rfl, ha, hb, hc⟩
    simp only [← component?_eq_some_iff] at ha hb hc
    simp only [ofParts, takeComponent, ha, hb, hc, ok_bind, List.isEmpty_nil, if_true]
    rfl

/-- The reported fault is that of the grammar. -/
theorem refused_of_ofParts (h : ofParts parts = .error fault) : Refused parts fault := by
  -- One of the three reads fails behind those that went well, or a part is left over.
  simp only [ofParts, bind_eq_error_iff, Prod.exists, takeComponent_eq_ok_iff] at h
  rcases h with h | ⟨a, rest, ⟨major, rfl, ha⟩, h⟩
  · exact refused_of_takeComponent [] (by simp) (by simp) h
  rcases h with h | ⟨b, rest, ⟨minor, rfl, hb⟩, h⟩
  · exact refused_of_takeComponent [major] (by simpa using ⟨a, ha⟩) (by simp) h
  rcases h with h | ⟨c, rest, ⟨patch, rfl, hc⟩, h⟩
  · exact refused_of_takeComponent [major, minor] (by simpa using ⟨⟨a, ha⟩, b, hb⟩) (by simp) h
  split at h
  next => cases h
  next hrest =>
    cases h
    have hlength : (major :: minor :: patch :: rest).length ≠ 3 := by simpa using hrest
    exact .count hlength (by simpa using ⟨⟨a, ha⟩, ⟨b, hb⟩, c, hc⟩)

/-- Parts are refused exactly for the fault of the grammar. -/
theorem ofParts_eq_error_iff : ofParts parts = .error fault ↔ Refused parts fault := by
  refine ⟨refused_of_ofParts, fun h => ?_⟩
  cases hread : ofParts parts with
  | error f =>
      -- There is one fault, so the one that is reported is the one at hand.
      rw [(refused_of_ofParts hread).unique h]
  | ok v =>
      -- Three numbers are not refused.
      obtain ⟨major, minor, patch, rfl, ha, hb, hc⟩ := ofParts_eq_ok_iff.1 hread
      cases h with
      | component first hnot =>
          simp only [List.take_succ_cons, List.take_zero, List.mem_cons, List.not_mem_nil,
            or_false] at first
          rcases first with rfl | rfl | rfl
          · exact absurd ha (hnot _)
          · exact absurd hb (hnot _)
          · exact absurd hc (hnot _)
      | count hlength _ => exact absurd rfl hlength

/-! ## Reading versions -/

theorem Component.dot_not_mem {part : String} {n : UInt32} (h : Component part n) :
    '.' ∉ part.toList := by
  intro hdot
  rcases Text.Unsigned.eq_plus_or_isDigit h hdot with hplus | hdigit
  · exact absurd hplus (by decide)
  · exact absurd hdigit (by decide)

theorem joined_three (major minor patch : String) :
    Text.joined '.' [major, minor, patch] = major ++ "." ++ minor ++ "." ++ patch := by
  have hdot : '.'.toString = "." := rfl
  simp only [Text.joined_cons_cons, Text.joined_singleton, hdot, String.append_assoc]

/-- The texts that are versions. -/
theorem ofText_eq_ok_iff {s : String} : ofText s = .ok v ↔
    ∃ major minor patch, Text.Trims s (major ++ "." ++ minor ++ "." ++ patch) ∧
      Component major v.major ∧ Component minor v.minor ∧ Component patch v.patch := by
  simp only [ofText, mapError_eq_ok_iff, ofParts_eq_ok_iff, Text.trims_iff, ← joined_three]
  constructor
  · rintro ⟨major, minor, patch, hparts, hnumbers⟩
    refine ⟨major, minor, patch, ?_, hnumbers⟩
    rw [← hparts, Text.joined_segments]
  · rintro ⟨major, minor, patch, htext, ha, hb, hc⟩
    refine ⟨major, minor, patch, ?_, ha, hb, hc⟩
    rw [htext]
    refine Text.segments_joined (List.cons_ne_nil _ _) ?_
    simp only [List.mem_cons, List.not_mem_nil, or_false, forall_eq_or_imp, forall_eq]
    exact ⟨ha.dot_not_mem, hb.dot_not_mem, hc.dot_not_mem⟩

/-- The texts that are not, each with its fault. -/
theorem ofText_eq_error_iff {s : String} {e : ParseError} :
    ofText s = .error e ↔
      e.input = s ∧ ∃ text parts, Text.Trims s text ∧ Text.CutAt '.' text parts ∧
        Refused parts e.fault := by
  simp only [ofText, mapError_eq_error_iff, ofParts_eq_error_iff, Text.trims_iff, Text.cutAt_iff]
  constructor
  · rintro ⟨fault, hrefused, rfl⟩
    exact ⟨rfl, _, _, rfl, rfl, hrefused⟩
  · rintro ⟨rfl, _, _, rfl, rfl, hrefused⟩
    exact ⟨e.fault, hrefused, rfl⟩

/-- A text is read as a version exactly if, without the blanks at its ends, it is the three numbers
with dots between them. Of any other text the error repeats the whole with its blanks; a part among
the first three that is not a number comes before a wrong number of parts. The text of a version is
read back as the version. -/
theorem ofText_grammar :
    (∀ s v, ofText s = .ok v ↔
      ∃ major minor patch, Text.Trims s (major ++ "." ++ minor ++ "." ++ patch) ∧
        Component major v.major ∧ Component minor v.minor ∧ Component patch v.patch) ∧
    (∀ s e, ofText s = .error e ↔ e.input = s ∧
      ∃ text parts, Text.Trims s text ∧ Text.CutAt '.' text parts ∧ Refused parts e.fault) ∧
    ∀ v : Version, ofText v.toText = .ok v :=
  ⟨fun _ _ => ofText_eq_ok_iff, fun _ _ => ofText_eq_error_iff, ofText_toText⟩

example : ofText "\x09 +0002.10.3 " = .ok ⟨2, 10, 3⟩ := by decide +kernel

example : ofText " 1.x" = .error ⟨" 1.x", .component⟩ := by decide +kernel

end Version

end ObjectGraph
