import Mathlib.Data.List.Infix
import ScriptCheck.Text.Split

/-!
# Splitting and joining

Joining the pieces of a text gives the text back.  The converse needs a separator
that cannot overlap itself: one whose first character does not come again in it.
Splitting at such a separator undoes joining, up to the separators inside the parts,
and a piece is never split again.
-/

namespace ScriptCheck.Text

/-! ## Joining the pieces -/

theorem segmentsFrom_ne_nil (separator piece text : List Char) :
    segmentsFrom separator piece text ≠ [] := by
  fun_induction segmentsFrom separator piece text <;> simp_all

theorem segments_ne_nil (separator text : List Char) : segments separator text ≠ [] :=
  segmentsFrom_ne_nil separator [] text

theorem intercalate_segmentsFrom {separator : List Char} (hfilled : separator ≠ [])
    (piece text : List Char) :
    separator.intercalate (segmentsFrom separator piece text) = piece.reverse ++ text := by
  fun_induction segmentsFrom separator piece text with
  | case1 piece => simp
  | case2 piece c rest hfound ih =>
      obtain ⟨later, hsplit⟩ := List.isPrefixOf_iff_prefix.mp hfound
      rw [List.intercalate_cons_of_ne_nil (segmentsFrom_ne_nil _ _ _), ih, ← hsplit]
      obtain ⟨first, tail, rfl⟩ := List.exists_cons_of_ne_nil hfilled
      obtain ⟨rfl, rfl⟩ : first = c ∧ tail ++ later = rest := by simpa using hsplit
      simp
  | case3 piece c rest habsent ih => simpa using ih

/-- Joining the pieces of a text gives the text back. -/
theorem intercalate_segments {separator : List Char} (hfilled : separator ≠ [])
    (text : List Char) : separator.intercalate (segments separator text) = text :=
  intercalate_segmentsFrom hfilled [] text

/-! ## Splitting what was joined -/

theorem length_le_length_flatMap {α β : Type} {f : α → List β} {items : List α}
    (hfilled : ∀ item ∈ items, f item ≠ []) : items.length ≤ (items.flatMap f).length := by
  induction items with
  | nil => simp
  | cons item items ih =>
      have hone := List.length_pos_iff.mpr (hfilled item (by simp))
      have hothers := ih fun item hfound => hfilled item (by simp [hfound])
      simp only [List.flatMap_cons, List.length_append, List.length_cons]
      omega

/-- Lists put in the place of items, none of them empty and not more in all than the
items, are single. -/
theorem length_of_length_flatMap_le {α β : Type} {f : α → List β} {items : List α}
    (hfilled : ∀ item ∈ items, f item ≠ [])
    (htotal : (items.flatMap f).length ≤ items.length) :
    ∀ item ∈ items, (f item).length = 1 := by
  induction items with
  | nil => simp
  | cons item items ih =>
      have hone := List.length_pos_iff.mpr (hfilled item (by simp))
      have hrest : ∀ item ∈ items, f item ≠ [] := fun item hfound => hfilled item (by simp [hfound])
      have hothers := length_le_length_flatMap hrest
      simp only [List.flatMap_cons, List.length_append, List.length_cons] at htotal
      exact List.forall_mem_cons.mpr ⟨by omega, ih hrest (by omega)⟩

section Distinct

variable {first : Char} {tail : List Char}

/-- An occurrence that begins before a separator ends before it: its end would bring
the first character of the separator a second time. -/
theorem prefix_of_prefix_append_separator (hdistinct : first ∉ tail) {text : List Char}
    (hfilled : text ≠ []) {rest : List Char}
    (hfound : first :: tail <+: text ++ (first :: tail ++ rest)) : first :: tail <+: text := by
  rcases Nat.lt_or_ge text.length (first :: tail).length with hshort | hlong
  · obtain ⟨behind, hsplit⟩ := List.prefix_of_prefix_length_le (List.prefix_append text _)
      hfound hshort.le
    obtain ⟨front, text, rfl⟩ := List.exists_cons_of_ne_nil hfilled
    obtain ⟨rfl, rfl⟩ : front = first ∧ text ++ behind = tail := by simpa using hsplit
    rcases behind with - | ⟨second, behind⟩
    · simp at hshort
    · obtain ⟨hagain, -⟩ : second = front ∧ _ := by simpa using hfound
      simp [hagain] at hdistinct
  · exact List.prefix_of_prefix_length_le hfound (List.prefix_append text _) hlong

theorem segmentsFrom_append_separator (hdistinct : first ∉ tail) (piece text rest : List Char) :
    segmentsFrom (first :: tail) piece (text ++ (first :: tail ++ rest))
      = segmentsFrom (first :: tail) piece text ++ segments (first :: tail) rest := by
  fun_induction segmentsFrom (first :: tail) piece text with
  | case1 piece =>
      rw [List.nil_append, List.cons_append, segmentsFrom]
      simp [segments]
  | case2 piece c text hfound ih =>
      have hlength : tail.length ≤ text.length := by
        simpa using (List.isPrefixOf_iff_prefix.mp hfound).length_le
      have hstill : (first :: tail).isPrefixOf (c :: (text ++ (first :: tail ++ rest))) := by
        rw [List.isPrefixOf_iff_prefix] at hfound ⊢
        exact hfound.trans (List.prefix_append (c :: text) _)
      rw [List.cons_append, segmentsFrom, if_pos hstill, List.length_cons, Nat.add_sub_cancel,
        List.drop_append_of_le_length hlength]
      simpa using ih
  | case3 piece c text habsent ih =>
      have hstill : ¬ (first :: tail).isPrefixOf (c :: (text ++ (first :: tail ++ rest))) := by
        rw [List.isPrefixOf_iff_prefix] at habsent ⊢
        exact fun hfound => habsent (prefix_of_prefix_append_separator hdistinct (by simp) hfound)
      rw [List.cons_append, segmentsFrom, if_neg hstill, ih]

theorem segments_append_separator (hdistinct : first ∉ tail) (text rest : List Char) :
    segments (first :: tail) (text ++ (first :: tail ++ rest))
      = segments (first :: tail) text ++ segments (first :: tail) rest :=
  segmentsFrom_append_separator hdistinct [] text rest

/-- Splitting undoes joining, up to the separators inside the parts. -/
theorem segments_intercalate (hdistinct : first ∉ tail) {parts : List (List Char)}
    (hfilled : parts ≠ []) :
    segments (first :: tail) ((first :: tail).intercalate parts)
      = parts.flatMap (segments (first :: tail)) := by
  induction parts with
  | nil => contradiction
  | cons part parts ih =>
      rcases parts with - | ⟨next, parts⟩
      · simp
      · rw [List.intercalate_cons_cons, List.append_assoc, segments_append_separator hdistinct,
          ih (by simp)]
        rfl

/-- A piece is never split again: splitting the joined pieces would give more of
them than there are. -/
theorem segments_of_mem_segments (hdistinct : first ∉ tail) {text piece : List Char}
    (hfound : piece ∈ segments (first :: tail) text) :
    segments (first :: tail) piece = [piece] := by
  have hagain : (segments (first :: tail) text).flatMap (segments (first :: tail))
      = segments (first :: tail) text := by
    rw [← segments_intercalate hdistinct (segments_ne_nil _ _), intercalate_segments (by simp)]
  have hsingle : (segments (first :: tail) piece).length = 1 := by
    refine length_of_length_flatMap_le (fun piece _ => segments_ne_nil _ piece) ?_ piece hfound
    rw [hagain]
  obtain ⟨only, hsplit⟩ := List.length_eq_one_iff.mp hsingle
  have hjoined := intercalate_segments (List.cons_ne_nil first tail) piece
  rw [hsplit] at hjoined ⊢
  simpa using hjoined

end Distinct

end ScriptCheck.Text
