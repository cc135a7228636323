import Mathlib.Data.List.Induction
import Mathlib.Tactic.SplitIfs
import ScriptCheck.Source.Excerpt

/-!
# The line of a byte

A text is cut behind each of its line breaks.  The main result tells what is found for a byte
offset from the bytes of the text alone: how many line breaks come before it, where its line
begins and how far that line goes.  One place is out of step: behind a line break that ends the
text the number is that of the line before.
-/

namespace ScriptCheck.Source

/-! ## Bytes -/

/-- A text as bytes in UTF-8. -/
def bytes (text : List Char) : List UInt8 :=
  text.flatMap String.utf8EncodeChar

/-- A line break as a byte. -/
def breakByte : UInt8 := 10

@[simp] theorem bytes_nil : bytes [] = [] := rfl

@[simp] theorem bytes_cons (c : Char) (text : List Char) :
    bytes (c :: text) = String.utf8EncodeChar c ++ bytes text := rfl

@[simp] theorem bytes_append (s t : List Char) : bytes (s ++ t) = bytes s ++ bytes t :=
  List.flatMap_append

@[simp] theorem length_bytes (text : List Char) : (bytes text).length = byteSize text := by
  induction text with
  | nil => rfl
  | cons c text ih => simp [ih]

theorem bytes_break : bytes ['\n'] = [breakByte] := rfl

theorem breakByte_eq_ofNat {n : Nat} (h : n < 256) : breakByte = UInt8.ofNat n ↔ n = 10 := by
  rw [← UInt8.toNat_inj, UInt8.toNat_ofNat', Nat.mod_eq_of_lt h, breakByte]
  exact eq_comm

/-- No other character has the byte of a line break among its own. -/
theorem breakByte_mem_utf8EncodeChar {c : Char} :
    breakByte ∈ String.utf8EncodeChar c ↔ c = '\n' := by
  have hcode : c = '\n' ↔ c.val.toNat = 10 := by
    rw [← Char.val_inj, ← UInt32.toNat_inj]
    rfl
  rw [hcode]
  -- the bytes of a character of several bytes are all at least 128
  unfold String.utf8EncodeChar
  generalize c.val.toNat = code
  dsimp only
  split_ifs <;>
    simp (disch := omega) only [List.mem_cons, List.not_mem_nil, or_false, breakByte_eq_ofNat] <;>
    omega

theorem breakByte_mem_bytes {text : List Char} : breakByte ∈ bytes text ↔ '\n' ∈ text := by
  simp [bytes, breakByte_mem_utf8EncodeChar]

theorem count_bytes (text : List Char) : (bytes text).count breakByte = text.count '\n' := by
  induction text with
  | nil => rfl
  | cons c text ih =>
      rw [bytes_cons, List.count_append, ih, List.count_cons, Nat.add_comm]
      by_cases hc : c = '\n'
      · subst hc
        rfl
      · have hnone := mt breakByte_mem_utf8EncodeChar.mp hc
        simp [List.count_eq_zero.mpr hnone, hc]

theorem exists_char_of_lt {text : List Char} {offset : Nat} (h : offset < byteSize text) :
    ∃ before c rest inner, text = before ++ c :: rest ∧ inner < c.utf8Size ∧
      offset = byteSize before + inner := by
  induction text generalizing offset with
  | nil => exact absurd h (Nat.not_lt_zero _)
  | cons c text ih =>
      rcases Nat.lt_or_ge offset c.utf8Size with hlt | hge
      · exact ⟨[], c, text, offset, rfl, hlt, by simp⟩
      · have hlt : offset - c.utf8Size < byteSize text := by
          rw [byteSize_cons] at h
          omega
        obtain ⟨before, d, rest, inner, rfl, hinner, heq⟩ := ih hlt
        exact ⟨c :: before, d, rest, inner, rfl, hinner, by rw [byteSize_cons]; omega⟩

/-! ## Lines -/

/-- A line that ends in its only line break. -/
def IsClosed (line : List Char) : Prop :=
  ∃ body, '\n' ∉ body ∧ line = body ++ ['\n']

theorem lines_of_not_mem {text : List Char} (h : '\n' ∉ text) (hne : text ≠ []) :
    lines text = [text] := by
  induction text with
  | nil => exact absurd rfl hne
  | cons c text ih =>
      rw [lines, if_neg (List.ne_of_not_mem_cons h).symm]
      cases text with
      | nil => rfl
      | cons d text => rw [ih (List.not_mem_of_not_mem_cons h) (by simp)]

theorem lines_append_break {body : List Char} (h : '\n' ∉ body) (rest : List Char) :
    lines (body ++ '\n' :: rest) = (body ++ ['\n']) :: lines rest := by
  induction body with
  | nil => rfl
  | cons c body ih =>
      rw [List.cons_append, lines, if_neg (List.ne_of_not_mem_cons h).symm,
        ih (List.not_mem_of_not_mem_cons h)]
      rfl

/-- The lines before a place where a line begins are lines by themselves. -/
theorem lines_flatten_append {past : List (List Char)} (h : ∀ line ∈ past, IsClosed line)
    (rest : List Char) : lines (past.flatten ++ rest) = past ++ lines rest := by
  induction past with
  | nil => rfl
  | cons line past ih =>
      obtain ⟨⟨body, hbody, rfl⟩, hpast⟩ := List.forall_mem_cons.mp h
      rw [List.flatten_cons, List.append_assoc, List.append_assoc, List.singleton_append,
        lines_append_break hbody, ih hpast]
      rfl

theorem count_flatten {past : List (List Char)} (h : ∀ line ∈ past, IsClosed line) :
    past.flatten.count '\n' = past.length := by
  induction past with
  | nil => rfl
  | cons line past ih =>
      obtain ⟨⟨body, hbody, rfl⟩, hpast⟩ := List.forall_mem_cons.mp h
      rw [List.flatten_cons, List.count_append, List.count_append, List.count_eq_zero.mpr hbody,
        ih hpast, List.count_singleton_self, List.length_cons]
      omega

/-- What begins like a line goes on up to the first line break, or to the end. -/
theorem exists_first_line {head : List Char} (h : '\n' ∉ head) (c : Char) (rest : List Char) :
    ∃ ending more, lines (head ++ c :: rest) = (head ++ c :: ending) :: more ∧
      (IsClosed (head ++ c :: ending) ∨ '\n' ∉ head ++ c :: ending ∧ more = []) := by
  by_cases hbreak : '\n' ∈ c :: rest
  · obtain ⟨body, tail, htext, hbody⟩ := List.eq_append_cons_of_mem hbreak
    have hwhole : '\n' ∉ head ++ body := by simp [h, hbody]
    have hlines := lines_append_break hwhole tail
    rw [List.append_assoc, ← htext] at hlines
    cases body with
    | nil =>
        obtain ⟨rfl, rfl⟩ := List.cons.inj htext
        rw [List.append_nil] at hlines
        exact ⟨[], lines rest, hlines, .inl ⟨head, h, rfl⟩⟩
    | cons d body =>
        obtain ⟨rfl, rfl⟩ := List.cons.inj htext
        refine ⟨body ++ ['\n'], lines tail, ?_, .inl ⟨head ++ c :: body, hwhole, by simp⟩⟩
        rw [hlines, List.append_assoc, List.cons_append]
  · have hwhole : '\n' ∉ head ++ c :: rest := fun hmem =>
      (List.mem_append.mp hmem).elim h hbreak
    exact ⟨rest, [], lines_of_not_mem hwhole (by simp), .inr ⟨hwhole, rfl⟩⟩

theorem append_flatten_of_lines {text line : List Char} {more : List (List Char)}
    (h : lines text = line :: more) : line ++ more.flatten = text := by
  rw [← flatten_lines text, h, List.flatten_cons]

structure Closes (text : List Char) (past : List (List Char)) (head : List Char) : Prop where
  text_eq : text = past.flatten ++ head
  closed : ∀ line ∈ past, IsClosed line
  no_break : '\n' ∉ head

theorem exists_closes (text : List Char) : ∃ past head, Closes text past head := by
  -- from the end: a further character either closes the line left open or makes it longer
  induction text using List.reverseRecOn with
  | nil => exact ⟨[], [], rfl, by simp, by simp⟩
  | append_singleton text c ih =>
      obtain ⟨past, head, rfl, hclosed, hbreak⟩ := ih
      by_cases hc : c = '\n'
      · subst hc
        refine ⟨past ++ [head ++ ['\n']], [], by simp, fun line hmem => ?_, by simp⟩
        rcases List.mem_append.mp hmem with hmem | hmem
        · exact hclosed line hmem
        · exact ⟨head, hbreak, List.mem_singleton.mp hmem⟩
      · exact ⟨past, head ++ [c], by simp, hclosed, by simp [hbreak, Ne.symm hc]⟩

namespace Closes

variable {text head : List Char} {past : List (List Char)}

theorem lines_append (h : Closes text past head) (rest : List Char) :
    lines (text ++ rest) = past ++ lines (head ++ rest) := by
  rw [h.text_eq, List.append_assoc, lines_flatten_append h.closed]

theorem byteSize_eq (h : Closes text past head) :
    byteSize text = byteSize past.flatten + byteSize head := by
  rw [h.text_eq, byteSize_append]

/-- A text closes as many lines as it has line breaks. -/
theorem count_eq (h : Closes text past head) : text.count '\n' = past.length := by
  rw [h.text_eq, List.count_append, List.count_eq_zero.mpr h.no_break, Nat.add_zero,
    count_flatten h.closed]

/-- The lines that a text closes end in a line break, if there are any. -/
theorem flatten_eq (h : Closes text past head) :
    past = [] ∨ ∃ before, past.flatten = before ++ ['\n'] := by
  rcases List.eq_nil_or_concat past with rfl | ⟨init, line, rfl⟩
  · exact .inl rfl
  · obtain ⟨body, -, rfl⟩ := h.closed line (by simp)
    exact .inr ⟨init.flatten ++ body, by simp⟩

theorem lastLine_eq (h : Closes text past head) : lastLine text = head := by
  have hhead : ∀ c ∈ head.reverse, (c ≠ '\n' : Bool) = true := fun c hc =>
    decide_eq_true fun heq => h.no_break (heq ▸ List.mem_reverse.mp hc)
  unfold lastLine
  rw [h.text_eq, List.reverse_append, List.takeWhile_append_of_pos hhead]
  obtain rfl | ⟨before, hbefore⟩ := h.flatten_eq
  · simp
  · simp [hbefore]

/-- A text that ends in a line break has nothing behind the lines that it closes. -/
theorem getLast?_eq_iff (h : Closes text past head) :
    text.getLast? = some '\n' ↔ head = [] ∧ past ≠ [] := by
  rw [h.text_eq]
  rcases List.eq_nil_or_concat head with rfl | ⟨init, c, rfl⟩
  · obtain rfl | ⟨before, hbefore⟩ := h.flatten_eq
    · simp
    · have hne : past ≠ [] := by
        rintro rfl
        simp at hbefore
      simp [hbefore, hne]
  · have hc : c ≠ '\n' := fun heq => h.no_break (by simp [heq])
    simp [← List.append_assoc, hc]

end Closes

/-! ## Looking up a line -/

theorem holding?_append (number offset : Nat) (past more : List (List Char)) :
    holding? number (byteSize past.flatten + offset) (past ++ more) =
      holding? (number + past.length) offset more := by
  induction past generalizing number with
  | nil => simp
  | cons line past ih =>
      rw [List.cons_append, holding?, List.flatten_cons, byteSize_append, if_neg (by omega),
        Nat.add_assoc, Nat.add_sub_cancel_left, ih]
      simp only [List.length_cons, Nat.add_assoc, Nat.add_comm 1]

/-- Inside a text: what is found for a byte of a character. -/
theorem lineAt?_inside {before head : List Char} {past : List (List Char)}
    (h : Closes before past head) {c : Char} {rest ending : List Char} {more : List (List Char)}
    (hlines : lines (head ++ c :: rest) = (head ++ c :: ending) :: more) {inner : Nat}
    (hinner : inner < c.utf8Size) :
    lineAt? (before ++ c :: rest) (byteSize before + inner) =
      some ⟨1 + past.length, head ++ c :: ending, byteSize head + inner⟩ := by
  have hoffset : byteSize head + inner < byteSize (head ++ c :: ending) := by
    rw [byteSize_append, byteSize_cons]
    omega
  have hsize : ¬byteSize (before ++ c :: rest) < byteSize before + inner := by
    rw [byteSize_append, byteSize_cons]
    omega
  rw [lineAt?, if_neg hsize, h.lines_append, hlines, h.byteSize_eq, Nat.add_assoc,
    holding?_append, holding?, if_pos hoffset]
  rfl

/-- At the end of a text: its last line may be empty, and is not counted then. -/
theorem lineAt?_end {text head : List Char} {past : List (List Char)} (h : Closes text past head) :
    lineAt? text (byteSize text) =
      some ⟨max (past.length + if head = [] then 0 else 1) 1, head, byteSize head⟩ := by
  have hlines : lines text = past ++ if head = [] then [] else [head] := by
    have happend := h.lines_append []
    rw [List.append_nil, List.append_nil] at happend
    split
    · subst head
      exact happend
    · rwa [lines_of_not_mem h.no_break ‹_›] at happend
  have hnone : holding? 1 (byteSize text) (lines text) = none := by
    rw [hlines, h.byteSize_eq, holding?_append]
    split
    · rfl
    · simp [holding?]
  rw [lineAt?, if_neg (Nat.lt_irrefl _), hnone, Option.getD_none, atEnd, h.lastLine_eq, hlines]
  split <;> simp

/-! ## Lines in bytes -/

/-- Where the line of a byte begins: behind the last line break before the byte, or where the text
does. -/
structure BeginsLine (text : List UInt8) (offset start : Nat) : Prop where
  start_le : start ≤ offset
  break_before : start = 0 ∨ text[start - 1]? = some breakByte
  no_break : breakByte ∉ (text.take offset).drop start

/-- A whole line: from its first byte up to its line break, or to the end of the text. -/
structure WholeLine (text : List UInt8) (start : Nat) (line : List UInt8) : Prop where
  exists_rest : ∃ rest, text.drop start = line ++ rest ∧
    (rest = [] ∨ line.getLast? = some breakByte)
  no_break : breakByte ∉ line.dropLast

theorem breakByte_not_mem_take {c : Char} {inner : Nat} (h : inner < c.utf8Size) :
    breakByte ∉ (String.utf8EncodeChar c).take inner := by
  intro hmem
  have hc := breakByte_mem_utf8EncodeChar.mp (List.mem_of_mem_take hmem)
  subst hc
  have hzero : inner = 0 := Nat.lt_one_iff.mp h
  subst hzero
  cases hmem

theorem take_bytes_append (before : List Char) (tail : List UInt8) (inner : Nat) :
    (bytes before ++ tail).take (byteSize before + inner) = bytes before ++ tail.take inner := by
  rw [← length_bytes, List.take_length_add_append]

namespace Closes

variable {before head : List Char} {past : List (List Char)}

/-- The line that a text leaves open begins behind those that it closes. -/
theorem beginsLine (h : Closes before past head) {tail : List UInt8} {inner : Nat}
    (htail : breakByte ∉ tail.take inner) :
    BeginsLine (bytes before ++ tail) (byteSize before + inner) (byteSize past.flatten) where
  start_le := by
    rw [h.byteSize_eq]
    omega
  break_before := by
    obtain rfl | ⟨closed, hclosed⟩ := h.flatten_eq
    · exact .inl rfl
    · refine .inr ?_
      have hbytes : bytes before ++ tail = bytes closed ++ breakByte :: (bytes head ++ tail) := by
        rw [h.text_eq, hclosed, bytes_append, bytes_append, bytes_break, List.append_assoc,
          List.append_assoc, List.singleton_append]
      have hstart : byteSize past.flatten - 1 = (bytes closed).length := by
        rw [hclosed, byteSize_append, length_bytes]
        rfl
      rw [hbytes, hstart, List.getElem?_append_right (Nat.le_refl _), Nat.sub_self]
      rfl
  no_break := by
    have hdrop : (bytes before ++ tail.take inner).drop (byteSize past.flatten) =
        bytes head ++ tail.take inner := by
      rw [h.text_eq, bytes_append, List.append_assoc, ← length_bytes, List.drop_left]
    rw [take_bytes_append, hdrop, List.mem_append, breakByte_mem_bytes]
    exact fun hmem => hmem.elim h.no_break htail

theorem count_take (h : Closes before past head) {tail : List UInt8} {inner : Nat}
    (htail : breakByte ∉ tail.take inner) :
    ((bytes before ++ tail).take (byteSize before + inner)).count breakByte = past.length := by
  rw [take_bytes_append, List.count_append, count_bytes, h.count_eq,
    List.count_eq_zero.mpr htail, Nat.add_zero]

end Closes

theorem wholeLine_bytes (before : List Char) {line : List Char} {more : List (List Char)}
    (h : IsClosed line ∨ '\n' ∉ line ∧ more = []) :
    WholeLine (bytes (before ++ (line ++ more.flatten))) (byteSize before) (bytes line) := by
  have hdrop : (bytes (before ++ (line ++ more.flatten))).drop (byteSize before) =
      bytes line ++ bytes more.flatten := by
    rw [bytes_append, bytes_append, ← length_bytes, List.drop_left]
  obtain ⟨body, hbody, rfl⟩ | ⟨hline, rfl⟩ := h
  · have hclosed : bytes (body ++ ['\n']) = bytes body ++ [breakByte] := bytes_append _ _
    refine ⟨⟨_, hdrop, .inr ?_⟩, ?_⟩
    · rw [hclosed, List.getLast?_concat]
    · rw [hclosed, List.dropLast_concat]
      exact mt breakByte_mem_bytes.mp hbody
  · exact ⟨⟨_, hdrop, .inl rfl⟩, fun hmem =>
      hline (breakByte_mem_bytes.mp ((List.dropLast_sublist _).mem hmem))⟩

/-! ## The line of a byte -/

/-- **The line found for a byte.**  For every offset up to the end of a text a line is found.  Its
text is the whole line that the byte belongs to and its offset is counted from the first byte of
that line.  Its number is one more than the line breaks before the byte, but for the place behind a
line break that ends the text: there the number is one less. -/
theorem lineAt?_of_le (text : List Char) (offset : Nat) (h : offset ≤ byteSize text) :
    ∃ line start, lineAt? text offset = some line ∧
      BeginsLine (bytes text) offset start ∧
      WholeLine (bytes text) start (bytes line.text) ∧
      offset = start + line.offset ∧
      line.number + (if offset = byteSize text ∧ text.getLast? = some '\n' then 1 else 0) =
        1 + ((bytes text).take offset).count breakByte := by
  rcases Nat.lt_or_eq_of_le h with hlt | rfl
  · -- a byte of some character; a line break has no byte but its first, so none is passed in it
    obtain ⟨before, c, rest, inner, rfl, hinner, rfl⟩ := exists_char_of_lt hlt
    obtain ⟨past, head, hcloses⟩ := exists_closes before
    obtain ⟨ending, more, hlines, hline⟩ := exists_first_line hcloses.no_break c rest
    have htail : breakByte ∉ (String.utf8EncodeChar c ++ bytes rest).take inner := by
      rw [List.take_append_of_le_length (by rw [String.length_utf8EncodeChar]; omega)]
      exact breakByte_not_mem_take hinner
    have hwhole := wholeLine_bytes past.flatten hline
    rw [append_flatten_of_lines hlines, ← List.append_assoc, ← hcloses.text_eq] at hwhole
    refine ⟨_, byteSize past.flatten, lineAt?_inside hcloses hlines hinner, ?_, hwhole, ?_, ?_⟩
    · rw [bytes_append, bytes_cons]
      exact hcloses.beginsLine htail
    · rw [hcloses.byteSize_eq, Nat.add_assoc]
    · rw [bytes_append, bytes_cons, hcloses.count_take htail, if_neg (by omega)]
      rfl
  · -- the end of the text, in the line that it leaves open, if that has any characters
    obtain ⟨past, head, hcloses⟩ := exists_closes text
    have htail : breakByte ∉ ([] : List UInt8).take 0 := by simp
    have hbegins := hcloses.beginsLine htail
    have hcount := hcloses.count_take htail
    have hwhole : WholeLine (bytes (past.flatten ++ (head ++ [].flatten))) (byteSize past.flatten)
        (bytes head) := wholeLine_bytes past.flatten (.inr ⟨hcloses.no_break, rfl⟩)
    rw [List.append_nil, Nat.add_zero] at hbegins hcount
    rw [List.flatten_nil, List.append_nil, ← hcloses.text_eq] at hwhole
    refine ⟨_, byteSize past.flatten, lineAt?_end hcloses, hbegins, hwhole, hcloses.byteSize_eq,
      ?_⟩
    rw [hcount]
    simp only [true_and, hcloses.getLast?_eq_iff]
    cases head with
    | nil =>
        cases past with
        | nil => rfl
        | cons line past => simp [Nat.add_comm]
    | cons c head => simp [Nat.add_comm]

/-- A text with an empty line, a character of two bytes and no line break at its end. -/
def accentedText : List Char := "a;\n\n  'é' + b".toList

theorem lineAt?_of_le_accentedText :
    8 ≤ byteSize accentedText ∧ lineAt? accentedText 8 = some ⟨3, "  'é' + b".toList, 4⟩ ∧
      ∃ line start, lineAt? accentedText 8 = some line ∧
        BeginsLine (bytes accentedText) 8 start ∧
        WholeLine (bytes accentedText) start (bytes line.text) ∧
        8 = start + line.offset ∧
        line.number +
            (if 8 = byteSize accentedText ∧ accentedText.getLast? = some '\n' then 1 else 0) =
          1 + ((bytes accentedText).take 8).count breakByte :=
  ⟨by decide, by decide, lineAt?_of_le accentedText 8 (by decide)⟩

/-- Behind a final line break stands nothing of the line before it, but its number is given. -/
theorem lineAt?_finalBreak :
    2 ≤ byteSize ['a', '\n'] ∧ BeginsLine (bytes ['a', '\n']) 2 2 ∧
      lineAt? ['a', '\n'] 2 = some ⟨1, [], 0⟩ ∧
      1 ≠ 1 + ((bytes ['a', '\n']).take 2).count breakByte :=
  ⟨by decide, ⟨by decide, by decide, by decide⟩, by decide, by decide⟩

end ScriptCheck.Source
