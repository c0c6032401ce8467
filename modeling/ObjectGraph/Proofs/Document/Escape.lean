import ObjectGraph.Document
import ObjectGraph.Document.Json

/-!
# Written strings are read back

An escape tells from its first characters which character it stands for and where it ends
(`readEscaped_escaped`), and none begins with the closing quote. So a text that begins with a
written string determines the string and what follows it (`writtenString_append_inj`); in particular
a key can be told from the value behind its colon (`writtenEntry_inj`).
-/

namespace ObjectGraph.Document

/-- Reads an escape behind its backslash. -/
def readEscape : List Char → Option (Char × List Char)
  | 'u' :: '0' :: '0' :: high :: low :: rest => do
      let value := 16 * (← Text.digitValue? 16 high) + (← Text.digitValue? 16 low)
      return (Char.ofNat value, rest)
  | mark :: rest => (Json.shortEscape? mark).map fun c => (c, rest)
  | [] => none

/-- Reads one character of a string, written as it is or as an escape. -/
def readEscaped : List Char → Option (Char × List Char)
  | c :: rest => if c = '\\' then readEscape rest else some (c, rest)
  | [] => none

/-- The digits of a control character stand for its two halves. -/
theorem digitValue?_digitChar : ∀ n < 0x20,
    Text.digitValue? 16 (Nat.digitChar (n / 16)) = some (n / 16) ∧
      Text.digitValue? 16 (Nat.digitChar (n % 16)) = some (n % 16) := by
  decide

/-- A hexadecimal digit is neither the quote nor the backslash. -/
theorem ne_of_digitValue? {c : Char} {value : Nat} (h : Text.digitValue? 16 c = some value) :
    c ≠ '"' ∧ c ≠ '\\' := by
  have hquote : Text.digitValue? 16 '"' = none := by decide
  have hbackslash : Text.digitValue? 16 '\\' = none := by decide
  constructor
  · rintro rfl
    rw [hquote] at h
    cases h
  · rintro rfl
    rw [hbackslash] at h
    cases h

theorem readEscaped_controlEscape {c : Char} (h : c.toNat < 0x20) (rest : List Char) :
    readEscaped (controlEscape c ++ rest) = some (c, rest) := by
  obtain ⟨hhigh, hlow⟩ := digitValue?_digitChar c.toNat h
  simp [controlEscape, readEscaped, readEscape, hhigh, hlow, Nat.div_add_mod, Char.ofNat_toNat]

/-- A character is written as it is or as an escape, whose further characters are plain. -/
theorem escaped_eq_self_or (c : Char) :
    (escaped c = [c] ∧ c ≠ '"' ∧ c ≠ '\\') ∨
      ∃ mark digits, escaped c = '\\' :: mark :: digits ∧ ∀ d ∈ digits, d ≠ '"' ∧ d ≠ '\\' := by
  unfold escaped
  split
  · exact Or.inr ⟨_, [], rfl, List.forall_mem_nil _⟩
  · exact Or.inr ⟨_, [], rfl, List.forall_mem_nil _⟩
  · exact Or.inr ⟨_, [], rfl, List.forall_mem_nil _⟩
  · exact Or.inr ⟨_, [], rfl, List.forall_mem_nil _⟩
  · exact Or.inr ⟨_, [], rfl, List.forall_mem_nil _⟩
  · exact Or.inr ⟨_, [], rfl, List.forall_mem_nil _⟩
  · exact Or.inr ⟨_, [], rfl, List.forall_mem_nil _⟩
  · rename_i hquote hbackslash _ _ _ _ _
    split
    · rename_i hcontrol
      obtain ⟨hhigh, hlow⟩ := digitValue?_digitChar c.toNat hcontrol
      have hzero : '0' ≠ '"' ∧ '0' ≠ '\\' := by decide
      refine Or.inr ⟨_, _, rfl, ?_⟩
      simp only [List.forall_mem_cons]
      exact ⟨hzero, hzero, ne_of_digitValue? hhigh, ne_of_digitValue? hlow, List.forall_mem_nil _⟩
    · exact Or.inl ⟨rfl, hquote, hbackslash⟩

/-- What is written for a character is read back as the character, whatever comes after it. -/
theorem readEscaped_escaped (c : Char) (rest : List Char) :
    readEscaped (escaped c ++ rest) = some (c, rest) := by
  unfold escaped
  split
  · rfl
  · rfl
  · rfl
  · rfl
  · rfl
  · rfl
  · rfl
  · rename_i hbackslash _ _ _ _ _
    split
    · rename_i hcontrol
      exact readEscaped_controlEscape hcontrol rest
    · rw [List.singleton_append, readEscaped, if_neg hbackslash]

theorem escaped_append_inj {c d : Char} {r s : List Char} (h : escaped c ++ r = escaped d ++ s) :
    c = d ∧ r = s := by
  have hread := congrArg readEscaped h
  rw [readEscaped_escaped, readEscaped_escaped] at hread
  cases hread
  exact ⟨rfl, rfl⟩

/-- No escape begins with the quote that closes a string. -/
theorem escaped_append_ne (c : Char) (r s : List Char) : escaped c ++ r ≠ '"' :: s := by
  intro h
  rcases escaped_eq_self_or c with ⟨hself, hquote, -⟩ | ⟨mark, digits, hescape, -⟩
  · rw [hself] at h
    exact hquote (List.cons.inj h).1
  · rw [hescape] at h
    exact absurd (List.cons.inj h).1 (by decide)

/-- The content of a string ends at the first quote that is not escaped. -/
theorem flatMap_escaped_append_inj {cs ds r s : List Char}
    (h : cs.flatMap escaped ++ '"' :: r = ds.flatMap escaped ++ '"' :: s) : cs = ds ∧ r = s := by
  -- Both strings are read together; one that ends first would meet an escape at its closing quote.
  induction cs generalizing ds with
  | nil =>
      cases ds with
      | nil => exact ⟨rfl, (List.cons.inj h).2⟩
      | cons d ds =>
          rw [List.flatMap_cons, List.append_assoc] at h
          exact absurd h.symm (escaped_append_ne d _ _)
  | cons c cs ih =>
      cases ds with
      | nil =>
          rw [List.flatMap_cons, List.append_assoc] at h
          exact absurd h (escaped_append_ne c _ _)
      | cons d ds =>
          rw [List.flatMap_cons, List.flatMap_cons, List.append_assoc, List.append_assoc] at h
          obtain ⟨rfl, hrest⟩ := escaped_append_inj h
          obtain ⟨rfl, rfl⟩ := ih hrest
          exact ⟨rfl, rfl⟩

theorem toList_writtenString (s : String) :
    (writtenString s).toList = '"' :: (s.toList.flatMap escaped ++ ['"']) := by
  rw [writtenString, String.toList_ofList, List.cons_append]

/-- A written string and what follows it can be told apart. -/
theorem writtenString_append_inj {s t : String} {r r' : List Char}
    (h : (writtenString s).toList ++ r = (writtenString t).toList ++ r') : s = t ∧ r = r' := by
  rw [toList_writtenString, toList_writtenString, List.cons_append, List.cons_append,
    List.append_assoc, List.append_assoc] at h
  obtain ⟨hchars, hrest⟩ := flatMap_escaped_append_inj (List.cons.inj h).2
  exact ⟨String.toList_inj.1 hchars, hrest⟩

/-- Different strings are written differently. -/
theorem writtenString_injective : Function.Injective writtenString := by
  intro s t h
  have htext : (writtenString s).toList ++ [] = (writtenString t).toList ++ [] := by rw [h]
  exact (writtenString_append_inj htext).1

theorem toList_writtenEntry (key value : String) :
    (writtenEntry (key, value)).toList = key.toList ++ ':' :: value.toList := by
  rw [writtenEntry, String.toList_append, String.toList_append, List.append_assoc]
  rfl

theorem writtenEntry_inj {k l v w : String}
    (h : writtenEntry (writtenString k, v) = writtenEntry (writtenString l, w)) :
    k = l ∧ v = w := by
  have htext := congrArg String.toList h
  rw [toList_writtenEntry, toList_writtenEntry] at htext
  obtain ⟨hkey, hrest⟩ := writtenString_append_inj htext
  exact ⟨hkey, String.toList_inj.1 (List.cons.inj hrest).2⟩

end ObjectGraph.Document
