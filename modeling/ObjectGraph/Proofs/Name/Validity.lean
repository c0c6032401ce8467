import Mathlib.Tactic.Tauto
import ObjectGraph.Name

/-!
# Which names are refused

`Name.Fault` lists the reasons for which a name is refused as that of a dynamic member, the most
important one first; of the characters that separate the steps of a path, the first in the name is
reported. `Name.validate` reports exactly this (`Name.validate_eq_error_iff`), so a name is accepted
if it is not empty, does not begin with two at-signs and has neither separator
(`Name.validate_eq_ok_iff`).
-/

namespace ObjectGraph

namespace Name

variable {name : String}

/-- Why a name is refused. A later reason counts only where no earlier one does. -/
inductive Fault : String → PropertyError → Prop
  | empty : Fault "" .emptyName
  | reserved {name : String} : ['@', '@'] <+: name.toList → Fault name (.reservedPrefix name)
  | separator {name : String} {before after : List Char} {c : Char} : ¬ ['@', '@'] <+: name.toList →
      name.toList = before ++ c :: after → (∀ b ∈ before, b ≠ '.' ∧ b ≠ '/') → c = '.' ∨ c = '/' →
        Fault name (.invalidCharacter name c)

theorem isPathSeparator_iff {c : Char} : isPathSeparator c = true ↔ c = '.' ∨ c = '/' := by
  rw [isPathSeparator, Bool.or_eq_true, beq_iff_eq, beq_iff_eq]

theorem not_isPathSeparator_iff {c : Char} : (!isPathSeparator c) = true ↔ c ≠ '.' ∧ c ≠ '/' := by
  rw [Bool.not_eq_true', Bool.eq_false_iff, Ne, isPathSeparator_iff, not_or]

theorem startsWith_iff : Text.startsWith name "@@" = true ↔ ['@', '@'] <+: name.toList := by
  rw [Text.startsWith, List.isPrefixOf_iff_prefix]
  rfl

/-- The separator that is reported is the first one. -/
theorem find?_isPathSeparator_eq_some_iff {cs : List Char} {c : Char} :
    cs.find? isPathSeparator = some c ↔ (c = '.' ∨ c = '/') ∧
      ∃ before after, cs = before ++ c :: after ∧ ∀ b ∈ before, b ≠ '.' ∧ b ≠ '/' := by
  simp only [List.find?_eq_some_iff_append, isPathSeparator_iff, not_isPathSeparator_iff]

/-- A name with a fault is refused with it. -/
theorem validate_of_fault {error : PropertyError} (h : Fault name error) :
    validate name = .error error := by
  cases h with
  | empty => rfl
  | reserved hprefix =>
      have hempty : ¬ name.isEmpty = true := by
        intro hempty
        rw [String.isEmpty_iff.1 hempty] at hprefix
        exact absurd hprefix (by decide)
      rw [validate, if_neg hempty, if_pos (startsWith_iff.2 hprefix)]
  | separator hnot hsplit hbefore hc =>
      have hempty : ¬ name.isEmpty = true := by
        intro hempty
        rw [String.isEmpty_iff.1 hempty] at hsplit
        simp at hsplit
      have hfind := find?_isPathSeparator_eq_some_iff.2 ⟨hc, _, _, hsplit, hbefore⟩
      rw [validate, if_neg hempty, if_neg fun hprefix => hnot (startsWith_iff.1 hprefix), hfind]

/-- A name is refused with a fault that it has. -/
theorem fault_of_validate {error : PropertyError} (h : validate name = .error error) :
    Fault name error := by
  rw [validate] at h
  split at h
  · rename_i hempty
    obtain rfl : name = "" := String.isEmpty_iff.1 hempty
    cases h
    exact .empty
  · split at h
    · rename_i hprefix
      cases h
      exact .reserved (startsWith_iff.1 hprefix)
    · rename_i hprefix
      split at h
      · rename_i c hfind
        obtain ⟨hc, before, after, hsplit, hbefore⟩ := find?_isPathSeparator_eq_some_iff.1 hfind
        cases h
        exact .separator (fun hnot => hprefix (startsWith_iff.2 hnot)) hsplit hbefore hc
      · cases h

/-- The first fault of a name is the one that is reported. -/
theorem validate_eq_error_iff {error : PropertyError} :
    validate name = .error error ↔ Fault name error :=
  ⟨fault_of_validate, validate_of_fault⟩

/-- Which names are accepted. -/
theorem validate_eq_ok_iff : validate name = .ok () ↔
    name ≠ "" ∧ ¬ ['@', '@'] <+: name.toList ∧ '.' ∉ name.toList ∧ '/' ∉ name.toList := by
  have hfind : name.toList.find? isPathSeparator = none ↔
      '.' ∉ name.toList ∧ '/' ∉ name.toList := by
    rw [List.find?_eq_none]
    constructor
    · intro h
      exact ⟨fun hmem => h _ hmem rfl, fun hmem => h _ hmem rfl⟩
    · rintro ⟨hdot, hslash⟩ c hc hseparator
      rcases isPathSeparator_iff.1 hseparator with rfl | rfl
      · exact hdot hc
      · exact hslash hc
  rw [validate, ← startsWith_iff, ← hfind, Ne, ← String.isEmpty_iff]
  split
  · simp [*]
  · split
    · simp [*]
    · split <;> simp [*]

/-- Which names have a fault. -/
theorem exists_fault_iff : (∃ error, Fault name error) ↔
    name = "" ∨ ['@', '@'] <+: name.toList ∨ '.' ∈ name.toList ∨ '/' ∈ name.toList := by
  have hok : (∃ error, Fault name error) ↔ ¬ validate name = .ok () := by
    simp only [← validate_eq_error_iff]
    cases validate name with
    | ok _ => simp
    | error error => simp
  rw [hok, validate_eq_ok_iff]
  tauto

end Name

end ObjectGraph
