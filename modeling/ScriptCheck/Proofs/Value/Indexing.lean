import ScriptCheck.Proofs.Number.Whole
import ScriptCheck.Value.Basic

/-!
# Indices and lengths

A text or an array answers to its length and to the indices of its parts, and an index is a
member name only in its shortest decimal spelling.  The parts of a text are its characters, but
its length counts 16-bit units: the two agree unless some character takes two units.
-/

namespace ScriptCheck

/-- A text has one unit more for each of its characters that take two. -/
theorem Text.unitLength_eq (text : List Char) :
    unitLength text = text.length + text.countP (unitSize · = 2) := by
  induction text with
  | nil => rfl
  | cons c text ih =>
      have hsize : unitSize c = 1 ∨ unitSize c = 2 := by
        unfold unitSize
        split <;> simp
      rw [unitLength, ih, List.length_cons, List.countP_cons]
      rcases hsize with hone | htwo
      · simp [hone]
        omega
      · simp [htwo]
        omega

namespace Value

/-! ## Spellings of an index -/

/-- The only name of an index is its decimal spelling. -/
theorem index?_eq_some_iff {key : String} {i : Nat} : index? key = some i ↔ key = toString i := by
  have hvalue : Number.digitsValue (Nat.toDigits 10 i) = i := Nat.ofDigitChars_ten_toDigits
  have hspelling : (toString i).toList = Nat.toDigits 10 i := Nat.toList_repr
  constructor
  · intro h
    dsimp only [index?] at h
    split at h
    · rename_i hdigits
      cases h
      exact String.toList_inj.mp (hdigits.trans hspelling.symm)
    · cases h
  · rintro rfl
    dsimp only [index?]
    rw [hspelling, hvalue, if_pos rfl]

theorem length_ne_toString (i : Nat) : "length" ≠ toString i := by
  intro h
  have hindex := index?_eq_some_iff.mpr h
  have hnone : index? "length" = none := by decide
  rw [hnone] at hindex
  cases hindex

/-! ## Parts -/

/-- The parts that the indices of a value number: the elements of an array, the characters of a
text.  Other values have none. -/
def parts? : Value → Option (List Value)
  | array _ elements => some elements
  | string s => some (s.toList.map fun c => string (String.singleton c))
  | _ => none

/-- How many of the parts of a value count twice in its length. -/
def pairs : Value → Nat
  | string s => s.toList.countP (Text.unitSize · = 2)
  | _ => 0

section

variable {value : Value} {parts : List Value} (h : value.parts? = some parts)
include h

theorem get?_length :
    value.get? "length" = some (number (Float.ofNat (parts.length + value.pairs))) := by
  cases value with
  | array tag elements =>
      cases h
      rfl
  | string s =>
      cases h
      rw [List.length_map, pairs, ← Text.unitLength_eq]
      rfl
  | undefined | null | bool | number | object => cases h

theorem get?_of_ne_length {key : String} (hkey : key ≠ "length") :
    value.get? key = (index? key).bind (parts[·]?) := by
  cases value with
  | array tag elements =>
      cases h
      exact if_neg hkey
  | string s =>
      cases h
      refine (if_neg hkey).trans (congrArg (index? key).bind (funext fun index => ?_))
      rw [List.getElem?_map]
  | undefined | null | bool | number | object => cases h

/-- The decimal spelling of an index reads the part at this index. -/
theorem get?_toString (i : Nat) : value.get? (toString i) = parts[i]? := by
  rw [get?_of_ne_length h (length_ne_toString i).symm, index?_eq_some_iff.mpr rfl]
  rfl

theorem isSome_get?_toString (i : Nat) :
    (value.get? (toString i)).isSome = true ↔ i < parts.length := by
  rw [get?_toString h]
  simp

/-- No other name than the length and the spellings of indices has a member. -/
theorem get?_eq_none {key : String} (hkey : key ≠ "length")
    (hspelling : ∀ i : Nat, key ≠ toString i) : value.get? key = none := by
  have hindex : index? key = none := by
    cases hsome : index? key with
    | none => rfl
    | some i => exact absurd (index?_eq_some_iff.mp hsome) (hspelling i)
  rw [get?_of_ne_length h hkey, hindex]
  rfl

end

/-! ## Agreement -/

/-- **Indices and length.**  The spelling of an index reads the part at this index, and no other
name but the length reads anything.  The length is the number of parts and of characters that
take two units, rounded to a double from `2 ^ 53` on.  Hence the indices that read a part are
those below the length exactly if no character takes two units, or if there are `2 ^ 53` parts
already. -/
theorem indices_agree_with_length {value : Value} {parts : List Value}
    (h : value.parts? = some parts) :
    (∀ i : Nat, value.get? (toString i) = parts[i]?) ∧
    (∀ key, key ≠ "length" → (∀ i : Nat, key ≠ toString i) → value.get? key = none) ∧
    ∃ length, value.get? "length" = some (number length) ∧
      (Number.natural? length = none → 2 ^ 1023 ≤ parts.length + value.pairs) ∧
      ∀ n, Number.natural? length = some n →
        (∀ i < 2 ^ 53, i < n ↔ i < parts.length + value.pairs) ∧
        ((∀ i < 2 ^ 53, (value.get? (toString i)).isSome = true ↔ i < n) ↔
          value.pairs = 0 ∨ 2 ^ 53 ≤ parts.length) := by
  refine ⟨get?_toString h, fun _ => get?_eq_none h, _, get?_length h,
    Number.le_of_natural?_ofNat_eq_none, fun n hn => ?_⟩
  have hlength : ∀ i < 2 ^ 53, i < n ↔ i < parts.length + value.pairs :=
    fun i hi => Number.lt_iff_of_natural?_ofNat hn hi
  refine ⟨hlength, ?_, ?_⟩
  · intro hagree
    by_contra hpairs
    obtain ⟨hpairs, hfew⟩ := not_or.mp hpairs
    have hfirst := hagree parts.length (by omega)
    rw [isSome_get?_toString h, hlength _ (by omega)] at hfirst
    omega
  · intro hpairs i hi
    rw [isSome_get?_toString h, hlength i hi]
    omega

theorem indices_agree_with_length_accentedText :
    let value := string "né"
    value.parts? = some [string "n", string "é"] ∧
      value.get? (toString 1) = some (string "é") ∧ value.get? "+1" = none ∧
      ∃ length, value.get? "length" = some (number length) ∧ Number.natural? length = some 2 ∧
        ∀ i < 2 ^ 53, (value.get? (toString i)).isSome = true ↔ i < 2 := by
  have hparts : (string "né").parts? = some [string "n", string "é"] := rfl
  obtain ⟨hindex, hother, length, hlength, -, hagree⟩ := indices_agree_with_length hparts
  have hcount : some (number (Float.ofNat 2)) = some (number length) := hlength
  cases hcount
  have htwo : Number.natural? (Float.ofNat 2) = some 2 := Number.natural?_ofNat_of_lt (by decide)
  have hsign : ∀ i : Nat, "+1" ≠ toString i := fun i hi => by
    have hnone : index? "+1" = none := by decide
    rw [index?_eq_some_iff.mpr hi] at hnone
    cases hnone
  exact ⟨hparts, hindex 1, hother "+1" (by decide) hsign, Float.ofNat 2, hlength, htwo,
    (hagree 2 htwo).2.mpr (.inl rfl)⟩

/-- A character of two units leaves the last index below the length without a part. -/
theorem pairedCharacter_lastIndex_unread :
    let value := string "😀a"
    ∃ length, value.get? "length" = some (number length) ∧ Number.natural? length = some 3 ∧
      value.get? (toString 2) = none :=
  ⟨Float.ofNat 3, rfl, Number.natural?_ofNat_of_lt (by decide), rfl⟩

end Value

end ScriptCheck
