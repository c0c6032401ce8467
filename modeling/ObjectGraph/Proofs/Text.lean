import Mathlib.Data.List.Induction
import Mathlib.Data.List.TakeWhile
import ObjectGraph.Text

/-!
# Texts and numbers

The parts of a joined text are its segments (`Text.cutAt_iff`), `Text.trim` leaves what stands
between the blanks at the two ends (`Text.trims_iff`), and `Text.readUnsigned?` reads exactly the
texts of numbers up to the bound (`Text.readUnsigned?_eq_some_iff`).
-/

namespace ObjectGraph.Text

/-! ## Segments of joined texts

A part without the separator is the last segment of every text that ends in the separator and the
part, whatever stands before. Parts without the separator are the segments of the text that joins
them, and every text is joined from its segments in this way.
-/

section Segments

variable {separator : Char} {s : String}

theorem segments_of_not_mem (h : separator ∉ s.toList) : segments separator s = [s] := by
  rw [segments, List.splitOn_eq_singleton h, List.map_singleton, String.ofList_toList]

theorem segments_append (h : separator ∉ s.toList) (start : String) :
    segments separator (start ++ separator.toString ++ s) = segments separator start ++ [s] := by
  have hlist : (start ++ separator.toString ++ s).toList =
      start.toList ++ separator :: s.toList := by
    simp [String.toList_append, Char.toString_eq_singleton]
  rw [segments, hlist, List.splitOn_append_cons_self, List.map_append, segments]
  exact congrArg _ (segments_of_not_mem h)

theorem joined_singleton (separator : Char) (s : String) : joined separator [s] = s := by
  simp [joined]

theorem joined_cons_cons (separator : Char) (first second : String) (rest : List String) :
    joined separator (first :: second :: rest) =
      first ++ separator.toString ++ joined separator (second :: rest) := by
  apply String.toList_injective
  simp [joined, List.intercalate_cons_cons, String.toList_append, Char.toString_eq_singleton]

/-- Joining one more part puts the separator before it. -/
theorem joined_append_singleton (separator : Char) {parts : List String} (hparts : parts ≠ [])
    (s : String) :
    joined separator (parts ++ [s]) = joined separator parts ++ separator.toString ++ s := by
  have hlist : ∀ xs : List (List Char), xs ≠ [] →
      [separator].intercalate (xs ++ [s.toList]) =
        [separator].intercalate xs ++ separator :: s.toList := by
    intro xs hxs
    induction xs with
    | nil => exact absurd rfl hxs
    | cons x rest ih =>
        cases rest with
        | nil => simp [List.intercalate_cons_cons, List.intercalate_singleton]
        | cons y rest =>
            rw [List.cons_append, List.cons_append, List.intercalate_cons_cons, ← List.cons_append,
              ih (List.cons_ne_nil y rest), List.intercalate_cons_cons]
            simp
  apply String.toList_injective
  simp [joined, hlist _ (mt List.map_eq_nil_iff.1 hparts), String.toList_append,
    Char.toString_eq_singleton]

/-- The last of the joined parts is the last segment, if it is without the separator. -/
theorem exists_segments_joined (h : separator ∉ s.toList) (parts : List String) :
    ∃ front, segments separator (joined separator (parts ++ [s])) = front ++ [s] := by
  by_cases hparts : parts = []
  · subst hparts
    refine ⟨[], ?_⟩
    rw [List.nil_append, joined_singleton, segments_of_not_mem h]
  · exact ⟨_, by rw [joined_append_singleton separator hparts, segments_append h]⟩

/-- Cutting undoes joining, if no part has the separator. -/
theorem segments_joined {parts : List String} (hne : parts ≠ [])
    (h : ∀ part ∈ parts, separator ∉ part.toList) :
    segments separator (joined separator parts) = parts := by
  have hlists : ∀ cs ∈ parts.map String.toList, separator ∉ cs := by
    intro cs hcs
    obtain ⟨part, hpart, rfl⟩ := List.mem_map.1 hcs
    exact h part hpart
  rw [segments, joined, String.toList_ofList,
    List.splitOn_intercalate separator hlists (mt List.map_eq_nil_iff.1 hne), List.map_map]
  simp [Function.comp_def]

/-- Parts that are not empty themselves are joined to a text that is not empty. -/
theorem joined_eq_empty_iff {parts : List String} (hpart : ∀ part ∈ parts, part ≠ "")
    (h : ∀ part ∈ parts, separator ∉ part.toList) : joined separator parts = "" ↔ parts = [] := by
  constructor
  · intro hjoined
    refine Decidable.byContradiction fun hne => ?_
    have hsegments := segments_joined hne h
    rw [hjoined, segments_of_not_mem List.not_mem_nil] at hsegments
    exact hpart "" (hsegments ▸ List.mem_cons_self) rfl
  · rintro rfl
    rfl

/-- Every text joins its segments. -/
theorem joined_segments (separator : Char) (s : String) :
    joined separator (segments separator s) = s := by
  rw [joined, segments, List.map_map, Function.comp_def]
  simp only [String.toList_ofList, List.map_id', List.intercalate_splitOn, String.ofList_toList]

theorem segments_ne_nil (separator : Char) (s : String) : segments separator s ≠ [] :=
  mt List.map_eq_nil_iff.1 (List.splitOn_ne_nil separator s.toList)

/-- A piece of a cut list is without the separator. -/
theorem not_mem_of_mem_splitOn {cs piece : List Char} (h : piece ∈ cs.splitOn separator) :
    separator ∉ piece := by
  induction cs generalizing piece with
  | nil =>
      rw [List.splitOn_nil, List.mem_singleton] at h
      exact h ▸ List.not_mem_nil
  | cons c cs ih =>
      rw [List.splitOn_cons_eq_if_modifyHead] at h
      split at h
      next =>
        rcases List.mem_cons.1 h with rfl | h
        · exact List.not_mem_nil
        · exact ih h
      next hc =>
        obtain ⟨first, rest, hcut⟩ := List.exists_cons_of_ne_nil (List.splitOn_ne_nil separator cs)
        rw [hcut] at h ih
        -- The character belongs to the first piece.
        rcases List.mem_cons.1 h with rfl | h
        · intro hmem
          rcases List.mem_cons.1 hmem with rfl | hmem
          · exact hc (beq_self_eq_true _)
          · exact ih List.mem_cons_self hmem
        · exact ih (List.mem_cons_of_mem _ h)

theorem not_mem_of_mem_segments {part : String} (h : part ∈ segments separator s) :
    separator ∉ part.toList := by
  obtain ⟨piece, hpiece, rfl⟩ := List.mem_map.1 h
  rw [String.toList_ofList]
  exact not_mem_of_mem_splitOn hpiece

/-- `parts` are what is left of the text between the separators. -/
structure CutAt (separator : Char) (s : String) (parts : List String) : Prop where
  nonempty : parts ≠ []
  joined_eq : joined separator parts = s
  without : ∀ part ∈ parts, separator ∉ part.toList

/-- The segments are the only parts without the separator that the text joins. -/
theorem cutAt_iff {parts : List String} :
    CutAt separator s parts ↔ segments separator s = parts := by
  constructor
  · rintro ⟨hne, rfl, hwithout⟩
    exact segments_joined hne hwithout
  · rintro rfl
    exact ⟨segments_ne_nil separator s, joined_segments separator s,
      fun _ => not_mem_of_mem_segments⟩

/-- Where two parts are joined, there is a separator. -/
theorem mem_joined_cons_cons (separator : Char) (first second : String) (rest : List String) :
    separator ∈ (joined separator (first :: second :: rest)).toList := by
  simp [joined, List.intercalate_cons_cons]

/-- A character of a joined text is the separator or stands in a part. -/
theorem mem_joined {c : Char} {parts : List String} (h : c ∈ (joined separator parts).toList) :
    c = separator ∨ ∃ part ∈ parts, c ∈ part.toList := by
  induction parts with
  | nil => simp [joined] at h
  | cons first rest ih =>
      cases rest with
      | nil =>
          rw [joined_singleton] at h
          exact Or.inr ⟨first, List.mem_cons_self, h⟩
      | cons second rest =>
          have hsplit : c ∈ first.toList ∨ c = separator ∨
              c ∈ (joined separator (second :: rest)).toList := by
            simpa [joined, List.intercalate_cons_cons] using h
          rcases hsplit with hfirst | heq | hrest
          · exact Or.inr ⟨first, List.mem_cons_self, hfirst⟩
          · exact Or.inl heq
          · rcases ih hrest with heq | ⟨part, hpart, hmem⟩
            · exact Or.inl heq
            · exact Or.inr ⟨part, List.mem_cons_of_mem _ hpart, hmem⟩

/-- The search finds every run of neighbouring characters. -/
theorem occursIn_iff {needle cs : List Char} : occursIn needle cs = true ↔ needle <:+: cs := by
  induction cs with
  | nil => rw [occursIn, List.isEmpty_iff, List.infix_nil]
  | cons c cs ih =>
      rw [occursIn, Bool.or_eq_true, ih, List.isPrefixOf_iff_prefix, List.infix_cons_iff]

/-- A part is contained when its characters stand next to each other in the text. -/
theorem contains_iff {s part : String} : contains s part = true ↔ part.toList <:+: s.toList :=
  occursIn_iff

end Segments

/-! ## What trimming leaves -/

/-- `text` is what is left of `s` without the blanks before and after it. -/
structure Trims (s text : String) : Prop where
  surrounded : ∃ before after : List Char, s.toList = before ++ text.toList ++ after ∧
    (∀ c ∈ before, isBlank c = true) ∧ ∀ c ∈ after, isBlank c = true
  first : ∀ c, text.toList.head? = some c → isBlank c = false
  last : ∀ c, text.toList.getLast? = some c → isBlank c = false

/-- Blanks are removed up to the first other character. -/
theorem dropWhile_isBlank {before rest : List Char} (hbefore : ∀ c ∈ before, isBlank c = true)
    (hrest : ∀ c, rest.head? = some c → isBlank c = false) :
    (before ++ rest).dropWhile isBlank = rest := by
  rw [List.dropWhile_append_of_pos hbefore]
  cases rest with
  | nil => rfl
  | cons c rest => rw [List.dropWhile_cons_of_neg (by rw [hrest c rfl]; decide)]

theorem head?_dropWhile_isBlank {cs : List Char} {c : Char}
    (h : (cs.dropWhile isBlank).head? = some c) : isBlank c = false := by
  have hnot := List.head?_dropWhile_not isBlank cs
  rw [h] at hnot
  exact hnot

/-- A list is the blanks before the first other character and the rest. -/
theorem exists_append_dropWhile (cs : List Char) :
    ∃ before, cs = before ++ cs.dropWhile isBlank ∧ ∀ c ∈ before, isBlank c = true :=
  ⟨cs.takeWhile isBlank, List.takeWhile_append_dropWhile.symm, fun _ => List.mem_takeWhile_imp⟩

/-- Trimming leaves what stands between the blanks at the ends. -/
theorem trims_trim (s : String) : Trims s (trim s) := by
  -- The end is trimmed as the start of the reversed list.
  obtain ⟨before, hbefore, hblank⟩ := exists_append_dropWhile s.toList
  obtain ⟨after, hafter, hblank'⟩ := exists_append_dropWhile (s.toList.dropWhile isBlank).reverse
  have hkept : s.toList.dropWhile isBlank = trimChars s.toList ++ after.reverse := by
    rw [trimChars, ← List.reverse_append, ← hafter, List.reverse_reverse]
  have htext : (trim s).toList = trimChars s.toList := String.toList_ofList
  refine ⟨⟨before, after.reverse, ?_, hblank, ?_⟩, ?_, ?_⟩
  · rw [htext, List.append_assoc, ← hkept, ← hbefore]
  · intro c hc
    exact hblank' c (List.mem_reverse.1 hc)
  · intro c hc
    -- The first character that is kept is the first one that is not blank.
    rw [htext] at hc
    have hkept' : (s.toList.dropWhile isBlank).head? = some c := by
      rw [hkept, List.head?_append, hc, Option.some_or]
    exact head?_dropWhile_isBlank hkept'
  · intro c hc
    rw [htext, trimChars, List.getLast?_reverse] at hc
    exact head?_dropWhile_isBlank hc

/-- What stands between the blanks at the ends is what trimming leaves. -/
theorem trims_iff {s text : String} : Trims s text ↔ trim s = text := by
  refine ⟨?_, fun h => h ▸ trims_trim s⟩
  rintro ⟨⟨before, after, hs, hbefore, hafter⟩, hfirst, hlast⟩
  apply String.toList_injective
  rw [trim, String.toList_ofList, trimChars, hs]
  by_cases hempty : text.toList = []
  · -- There are only blanks.
    rw [hempty, List.append_nil, ← List.append_nil (before ++ after),
      dropWhile_isBlank (by simpa [or_imp, forall_and] using ⟨hbefore, hafter⟩) (by simp)]
    rfl
  · obtain ⟨c, cs, htext⟩ := List.exists_cons_of_ne_nil hempty
    have hstart : (before ++ text.toList ++ after).dropWhile isBlank = text.toList ++ after := by
      rw [List.append_assoc]
      refine dropWhile_isBlank hbefore ?_
      intro c' hc'
      rw [htext, List.cons_append, List.head?_cons, Option.some.injEq] at hc'
      subst hc'
      exact hfirst c (by rw [htext, List.head?_cons])
    rw [hstart, List.reverse_append, dropWhile_isBlank (by simpa using hafter) ?_,
      List.reverse_reverse]
    simpa using hlast

/-- There is nothing to trim in a text without blanks. -/
theorem trim_eq_self {s : String} (h : ∀ c ∈ s.toList, isBlank c = false) : trim s = s := by
  refine trims_iff.1 ⟨⟨[], [], by simp, List.forall_mem_nil _, List.forall_mem_nil _⟩, ?_, ?_⟩
  · exact fun c hc => h c (List.mem_of_head? hc)
  · exact fun c hc => h c (List.mem_of_getLast? hc)

theorem isBlank_of_isDigit {c : Char} (h : c.isDigit = true) : isBlank c = false := by
  have hrange : 48 ≤ c.toNat ∧ c.toNat ≤ 57 := by
    simp only [Char.isDigit, Bool.and_eq_true, decide_eq_true_eq, UInt32.le_iff_toNat_le] at h
    exact h
  rw [← Bool.not_eq_true]
  intro hblank
  simp only [isBlank, Bool.or_eq_true, Bool.and_eq_true, decide_eq_true_eq, beq_iff_eq] at hblank
  omega

/-! ## What is read as a number

A number text is one or more decimal digits after at most one plus sign. The digits and their value
are given on their own (`Text.Decimal`). Among the texts that are read is the one that a number is
written as (`Text.readUnsigned?_repr`).
-/

/-- A decimal digit and its value. -/
structure Digit (c : Char) (d : Nat) : Prop where
  lt_ten : d < 10
  code : c.toNat = '0'.toNat + d

/-- One or more decimal digits, and the number they are. -/
inductive Decimal : List Char → Nat → Prop where
  | single {c : Char} {d : Nat} (digit : Digit c d) : Decimal [c] d
  | snoc {cs : List Char} {c : Char} {n d : Nat} (front : Decimal cs n) (digit : Digit c d) :
      Decimal (cs ++ [c]) (10 * n + d)

theorem Digit.isDigit {c : Char} {d : Nat} (h : Digit c d) : c.isDigit = true := by
  have hnine : '9'.toNat = '0'.toNat + 9 := rfl
  have hlt := h.lt_ten
  rw [Char.isDigit_iff_toNat, h.code, hnine]
  omega

theorem Digit.value {c : Char} {d : Nat} (h : Digit c d) : c.toNat - '0'.toNat = d := by
  rw [h.code, Nat.add_sub_cancel_left]

theorem digit_of_isDigit {c : Char} (h : c.isDigit = true) : Digit c (c.toNat - '0'.toNat) := by
  have hnine : '9'.toNat = '0'.toNat + 9 := rfl
  rw [Char.isDigit_iff_toNat, hnine] at h
  exact ⟨by omega, by omega⟩

theorem decimal_of_forall_isDigit {cs : List Char} (hne : cs ≠ [])
    (h : ∀ c ∈ cs, c.isDigit = true) : Decimal cs (Nat.ofDigitChars 10 cs 0) := by
  -- A number grows at its end.
  induction cs using List.reverseRecOn with
  | nil => exact absurd rfl hne
  | append_singleton cs c ih =>
      have hc : Digit c (c.toNat - '0'.toNat) := digit_of_isDigit (h c (by simp))
      rw [Nat.ofDigitChars_append, Nat.ofDigitChars_cons, Nat.ofDigitChars_nil]
      by_cases hcs : cs = []
      · subst hcs
        rw [Nat.ofDigitChars_nil, Nat.mul_zero, Nat.zero_add]
        exact .single hc
      · exact .snoc (ih hcs fun c' hc' => h c' (List.mem_append_left _ hc')) hc

/-- Decimal texts and their values, by the digits of the standard library. -/
theorem decimal_iff {cs : List Char} {n : Nat} :
    Decimal cs n ↔ cs ≠ [] ∧ (∀ c ∈ cs, c.isDigit = true) ∧ Nat.ofDigitChars 10 cs 0 = n := by
  constructor
  · intro h
    induction h with
    | single digit =>
        refine ⟨List.cons_ne_nil _ _, List.forall_mem_singleton.2 digit.isDigit, ?_⟩
        rw [Nat.ofDigitChars_cons, Nat.ofDigitChars_nil, Nat.mul_zero, Nat.zero_add, digit.value]
    | @snoc cs c n d _ digit ih =>
        obtain ⟨-, hdigits, hvalue⟩ := ih
        refine ⟨by simp, ?_, ?_⟩
        · intro c' hc'
          rcases List.mem_append.1 hc' with hc' | hc'
          · exact hdigits c' hc'
          · rw [List.mem_singleton.1 hc']
            exact digit.isDigit
        · rw [Nat.ofDigitChars_append, hvalue, Nat.ofDigitChars_cons, Nat.ofDigitChars_nil,
            digit.value]
  · rintro ⟨hne, hdigits, rfl⟩
    exact decimal_of_forall_isDigit hne hdigits

/-- A number up to a bound as text, after a plus sign or without one. -/
inductive Unsigned (bound : Nat) : List Char → Nat → Prop where
  | plain {cs : List Char} {n : Nat} (digits : Decimal cs n) (h : n ≤ bound) : Unsigned bound cs n
  | plus {cs : List Char} {n : Nat} (digits : Decimal cs n) (h : n ≤ bound) :
      Unsigned bound ('+' :: cs) n

theorem Unsigned.eq_plus_or_isDigit {bound n : Nat} {cs : List Char} (h : Unsigned bound cs n)
    {c : Char} (hc : c ∈ cs) : c = '+' ∨ c.isDigit = true := by
  cases h with
  | plain digits _ => exact .inr ((decimal_iff.1 digits).2.1 c hc)
  | plus digits _ => exact (List.mem_cons.1 hc).imp_right ((decimal_iff.1 digits).2.1 c)

/-- What follows the sign is the number. -/
theorem unsigned_iff {bound n : Nat} {cs : List Char} :
    Unsigned bound cs n ↔ Decimal (unsignedDigits cs) n ∧ n ≤ bound := by
  have hplus : ∀ digits, ¬ Decimal ('+' :: digits) n := fun digits h =>
    absurd ((decimal_iff.1 h).2.1 '+' List.mem_cons_self) (by decide)
  constructor
  · rintro (⟨digits, h⟩ | ⟨digits, h⟩)
    · have hsign : unsignedDigits cs = cs := by
        rw [unsignedDigits]
        rintro rest rfl
        exact hplus rest digits
      exact ⟨hsign.symm ▸ digits, h⟩
    · exact ⟨digits, h⟩
  · rintro ⟨digits, h⟩
    rw [unsignedDigits.eq_def] at digits
    split at digits
    · exact .plus digits h
    · exact .plain digits h

/-- The reader reads exactly the number texts up to the bound. -/
theorem readUnsigned?_eq_some_iff {bound n : Nat} {cs : List Char} :
    readUnsigned? bound cs = some n ↔ Unsigned bound cs n := by
  rw [unsigned_iff, decimal_iff, readUnsigned?]
  simp only [Option.ite_none_right_eq_some, Bool.and_eq_true, Bool.not_eq_true',
    List.isEmpty_eq_false_iff, List.all_eq_true, Option.some.injEq]
  constructor
  · rintro ⟨⟨hne, hdigits⟩, hbound, rfl⟩
    exact ⟨⟨hne, hdigits, rfl⟩, hbound⟩
  · rintro ⟨⟨hne, hdigits, rfl⟩, hbound⟩
    exact ⟨⟨hne, hdigits⟩, hbound, rfl⟩

/-! ## Written numbers -/

theorem isDigit_of_mem_repr {n : Nat} {c : Char} (h : c ∈ n.repr.toList) : c.isDigit = true := by
  rw [Nat.toList_repr] at h
  exact Nat.isDigit_of_mem_toDigits (by decide) (by decide) h

theorem decimal_repr (n : Nat) : Decimal n.repr.toList n := by
  refine decimal_iff.2 ⟨?_, fun _ => isDigit_of_mem_repr, ?_⟩
  · rw [Nat.toList_repr]
    exact Nat.toDigits_ne_nil
  · rw [Nat.toList_repr, Nat.ofDigitChars_ten_toDigits]

/-- A number is read back from its decimal digits, if it keeps to the bound. -/
theorem readUnsigned?_repr {bound n : Nat} (h : n ≤ bound) :
    readUnsigned? bound n.repr.toList = some n :=
  readUnsigned?_eq_some_iff.2 (.plain (decimal_repr n) h)

end ObjectGraph.Text
