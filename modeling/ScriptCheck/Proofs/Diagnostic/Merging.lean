import Mathlib.Data.List.Nodup
import Mathlib.Data.List.SplitBy
import ScriptCheck.Diagnostic
import ScriptCheck.Proofs.Text.Segments

/-!
# What a merging collector lists

The records of a merging collector are one for every longest run of diagnostics at
one location.  A record is the first diagnostic of its run with another message: the
messages of the run are joined, each left out that is already a piece of an earlier
one.  Those are the distinct messages of the run exactly if no message is a piece of
an earlier different one and none with a separator inside comes twice.
-/

namespace ScriptCheck

namespace Diagnostic

/-! ## The pieces of a message -/

/-- The first character of the separator does not come again in it. -/
theorem separator_distinct : '\n' ∉ [' ', ' ', ' ', ' '] := by decide

theorem pieces_of_mem_pieces {message piece : String} (hfound : piece ∈ pieces message) :
    pieces piece = [piece] := by
  obtain ⟨text, hinside, rfl⟩ := List.mem_map.mp hfound
  have hsingle : Text.segments separator.toList text = [text] :=
    Text.segments_of_mem_segments separator_distinct hinside
  simp [pieces, hsingle]

theorem pieces_intercalate {messages : List String} (hfilled : messages ≠ []) :
    pieces (separator.intercalate messages) = messages.flatMap pieces := by
  have hsplit : Text.segments separator.toList
        (separator.toList.intercalate (messages.map String.toList))
      = (messages.map String.toList).flatMap (Text.segments separator.toList) :=
    Text.segments_intercalate separator_distinct (by simpa using hfilled)
  rw [pieces, String.toList_intercalate, hsplit, List.flatMap_map, List.map_flatMap]
  rfl

/-! ## The messages of a record -/

def Told (messages : List String) (message : String) : Prop :=
  ∃ earlier ∈ messages, message ∈ pieces earlier

instance (messages : List String) (message : String) : Decidable (Told messages message) :=
  inferInstanceAs (Decidable (∃ earlier ∈ messages, message ∈ pieces earlier))

/-- Adds a message to a list, unless it is told there. -/
def list (listed : List String) (message : String) : List String :=
  if Told listed message then listed else listed ++ [message]

/-- The messages that a record lists, of those that are reported one after another. -/
def listed (messages : List String) : List String := messages.foldl list []

@[simp] theorem listed_nil : listed [] = [] := rfl

theorem told_concat {messages : List String} {last message : String} :
    Told (messages ++ [last]) message ↔ Told messages message ∨ message ∈ pieces last := by
  simp [Told, or_and_right, exists_or]

theorem told_listed (messages : List String) (message : String) :
    Told (listed messages) message ↔ Told messages message := by
  induction messages using List.reverseRecOn with
  | nil => rfl
  | append_singleton messages last ih =>
      rw [listed, List.foldl_concat, ← listed, list]
      split
      case isTrue htold =>
        rw [told_concat, ih]
        refine ⟨.inl, fun heither => heither.elim id fun hpiece => ?_⟩
        obtain ⟨earlier, hfound, hinside⟩ := htold
        obtain rfl : message = last := by simpa [pieces_of_mem_pieces hinside] using hpiece
        exact ih.mp ⟨earlier, hfound, hinside⟩
      case isFalse => rw [told_concat, told_concat, ih]

theorem listed_concat (messages : List String) (last : String) :
    listed (messages ++ [last])
      = if Told messages last then listed messages else listed messages ++ [last] := by
  rw [listed, List.foldl_concat, ← listed, list]
  simp only [told_listed]

theorem listed_ne_nil {messages : List String} (hfilled : messages ≠ []) :
    listed messages ≠ [] := by
  induction messages using List.reverseRecOn with
  | nil => contradiction
  | append_singleton messages last ih =>
      rw [listed_concat]
      split
      case isTrue htold => exact ih (by rintro rfl; simp [Told] at htold)
      case isFalse => simp

/-! ## Distinct messages -/

theorem eraseDups_concat (messages : List String) (last : String) :
    (messages ++ [last]).eraseDups
      = if last ∈ messages then messages.eraseDups else messages.eraseDups ++ [last] := by
  rw [List.eraseDups_append]
  by_cases hfound : last ∈ messages <;> simp [List.removeAll, List.eraseDups_cons, hfound]

theorem nodup_eraseDups (messages : List String) : messages.eraseDups.Nodup := by
  induction messages using List.reverseRecOn with
  | nil => simp
  | append_singleton messages last ih =>
      rw [eraseDups_concat]
      split
      case isTrue => exact ih
      case isFalse hfresh =>
        rw [← List.mem_eraseDups] at hfresh
        exact List.Nodup.append ih (by simp) (by simpa using hfresh)

theorem mem_of_mem_listed {messages : List String} {message : String}
    (hfound : message ∈ listed messages) : message ∈ messages := by
  induction messages using List.reverseRecOn with
  | nil => simp at hfound
  | append_singleton messages last ih =>
      rw [listed_concat] at hfound
      split at hfound
      case isTrue => exact List.mem_append_left _ (ih hfound)
      case isFalse => grind

/-- A message that is reported and not told by what was reported is listed. -/
theorem mem_listed_of_not_told {messages : List String} {message : String}
    (hfound : message ∈ messages) (huntold : ¬ Told messages message) :
    message ∈ listed messages := by
  induction messages using List.reverseRecOn with
  | nil => simp at hfound
  | append_singleton messages last ih =>
      rw [told_concat, not_or] at huntold
      rw [listed_concat]
      grind

/-- Every message that is told by those before it is one of them, and the other way
round. -/
def Distinguishable (messages : List String) : Prop :=
  ∀ before message after, messages = before ++ message :: after →
    (Told before message ↔ message ∈ before)

theorem distinguishable_concat {messages : List String} {last : String} :
    Distinguishable (messages ++ [last])
      ↔ Distinguishable messages ∧ (Told messages last ↔ last ∈ messages) := by
  constructor
  · intro hall
    refine ⟨fun before message after hsplit => ?_, hall messages last [] rfl⟩
    exact hall before message (after ++ [last]) (by simp [hsplit])
  · rintro ⟨hfront, hfinal⟩ before message after hsplit
    rcases List.eq_nil_or_concat after with rfl | ⟨after, end', rfl⟩
    · obtain ⟨rfl, rfl⟩ : messages = before ∧ last = message := by simpa using hsplit
      exact hfinal
    · refine hfront before message after ?_
      have hsplit : messages ++ [last] = (before ++ message :: after) ++ [end'] := by
        simpa using hsplit
      exact (List.append_inj' hsplit rfl).1

/-- The list holds the distinct messages in their order exactly if the messages can be
told apart by their pieces. -/
theorem listed_eq_eraseDups_iff (messages : List String) :
    listed messages = messages.eraseDups ↔ Distinguishable messages := by
  induction messages using List.reverseRecOn with
  | nil => simp [Distinguishable]
  | append_singleton messages last ih =>
      rw [distinguishable_concat, listed_concat, eraseDups_concat, ← ih]
      by_cases htold : Told messages last <;> by_cases hfound : last ∈ messages
      · simp [htold, hfound]
      · have hfresh : last ∉ listed messages := fun hlisted => hfound (mem_of_mem_listed hlisted)
        refine iff_of_false (fun hsame => hfresh ?_) (by simp [htold, hfound])
        rw [if_pos htold, if_neg hfound] at hsame
        simp [hsame]
      · have htwice := mem_listed_of_not_told hfound htold
        refine iff_of_false (fun hsame => ?_) (by simp [htold, hfound])
        rw [if_neg htold, if_pos hfound] at hsame
        have hnodup := nodup_eraseDups messages
        rw [← hsame] at hnodup
        exact List.disjoint_of_nodup_append hnodup htwice (by simp)
      · simp [htold, hfound]

/-! ## A run at one location -/

/-- Whether two diagnostics are at one location. -/
def together (a b : Diagnostic) : Bool := a.location = b.location

/-- The record of a run of diagnostics is the first of them with the chosen ones of
their messages. -/
def Merged (chosen : List String → List String) (run : List Diagnostic)
    (record : Diagnostic) : Prop :=
  ∃ first rest, run = first :: rest ∧
    record = { first with message := separator.intercalate (chosen (run.map message)) }

@[simp] theorem absorb_location (earlier later : Diagnostic) :
    (earlier.absorb later).location = earlier.location := by
  rw [absorb]
  split <;> rfl

theorem foldl_absorb_location (first : Diagnostic) (rest : List Diagnostic) :
    (rest.foldl absorb first).location = first.location := by
  induction rest generalizing first with
  | nil => rfl
  | cons found rest ih => simp [ih]

/-- A record that lists messages lists one more once a diagnostic is merged into it. -/
theorem absorb_listed (first later : Diagnostic) {messages : List String}
    (hfilled : messages ≠ []) :
    { first with message := separator.intercalate (listed messages) }.absorb later
      = { first with message := separator.intercalate (listed (messages ++ [later.message])) } := by
  have htold : later.message ∈ pieces (separator.intercalate (listed messages))
      ↔ Told messages later.message := by
    rw [pieces_intercalate (listed_ne_nil hfilled), List.mem_flatMap, ← told_listed, Told]
  rw [absorb, Diagnostic.messages, listed_concat]
  by_cases h : Told messages later.message
  · rw [if_pos (htold.mpr h), if_pos h]
  · rw [if_neg (htold.not.mpr h), if_neg h,
      String.intercalate_append_of_ne_nil (listed_ne_nil hfilled) (by simp)]
    simp

theorem merged_foldl_absorb (first : Diagnostic) (rest : List Diagnostic) :
    Merged listed (first :: rest) (rest.foldl absorb first) := by
  refine ⟨first, rest, rfl, ?_⟩
  induction rest using List.reverseRecOn with
  | nil => simp [listed, list, Told]
  | append_singleton rest last ih =>
      rw [List.foldl_concat, ih, absorb_listed first last (by simp)]
      simp

end Diagnostic

namespace Diagnostics

open Diagnostic

/-! ## One report -/

theorem report_within (records : Array Diagnostic) {last found : Diagnostic}
    (hsame : found.location = last.location) :
    report ⟨true, records.push last⟩ found = ⟨true, records.push (last.absorb found)⟩ := by
  simp [report, hsame]

theorem report_apart (records : Array Diagnostic) {found : Diagnostic}
    (hapart : ∀ last ∈ records.back?, last.location ≠ found.location) :
    report ⟨true, records⟩ found = ⟨true, records.push found⟩ := by
  unfold report
  split
  case h_1 last held => simp [hapart last held]
  case h_2 => rfl

/-! ## All reports -/

theorem foldl_report_run (records : Array Diagnostic) {last : Diagnostic}
    {rest : List Diagnostic} (hsame : ∀ found ∈ rest, found.location = last.location) :
    rest.foldl report ⟨true, records.push last⟩
      = ⟨true, records.push (rest.foldl absorb last)⟩ := by
  induction rest generalizing last with
  | nil => rfl
  | cons found rest ih =>
      rw [List.foldl_cons, report_within records (hsame found (by simp)), List.foldl_cons]
      exact ih fun next held => by simpa using hsame next (by simp [held])

theorem location_eq_of_isChain {first : Diagnostic} {rest : List Diagnostic}
    (hchain : (first :: rest).IsChain fun a b => a.location = b.location) :
    ∀ found ∈ first :: rest, found.location = first.location := by
  have : IsTrans Diagnostic fun a b => a.location = b.location := ⟨fun _ _ _ => Eq.trans⟩
  have hfollow := (List.pairwise_cons.mp hchain.pairwise).1
  exact List.forall_mem_cons.mpr ⟨rfl, fun found held => (hfollow found held).symm⟩

theorem foldl_report_runs {runs : List (List Diagnostic)} (hfilled : [] ∉ runs)
    (hsame : ∀ run ∈ runs, run.IsChain fun a b => a.location = b.location)
    (hapart : runs.IsChain fun a b =>
      ∃ hends hstarts, (a.getLast hends).location ≠ (b.head hstarts).location)
    (records : Array Diagnostic)
    (hbefore : ∀ last ∈ records.back?, ∀ run ∈ runs.head?, ∀ found ∈ run.head?,
      last.location ≠ found.location) :
    ∃ merged, (runs.flatten.foldl report ⟨true, records⟩).toList = records.toList ++ merged ∧
      List.Forall₂ (Merged listed) runs merged := by
  induction runs generalizing records with
  | nil => exact ⟨[], by simp [toList], .nil⟩
  | cons run runs ih =>
      rcases run with - | ⟨first, rest⟩
      · simp at hfilled
      have hlevel := location_eq_of_isChain (hsame (first :: rest) (by simp))
      have hnext : ∀ run ∈ runs.head?, ∀ found ∈ run.head?, first.location ≠ found.location := by
        rcases runs with - | ⟨run, runs⟩
        · simp
        obtain ⟨hends, hstarts, hdiffer⟩ := (List.isChain_cons_cons.mp hapart).1
        obtain ⟨second, run, rfl⟩ := List.exists_cons_of_ne_nil hstarts
        simpa [hlevel _ (List.getLast_mem hends)] using hdiffer
      obtain ⟨merged, hlisted, hagree⟩ := ih (by simpa using hfilled)
        (fun run held => hsame run (by simp [held])) hapart.of_cons
        (records.push (rest.foldl absorb first))
        (by simpa [foldl_absorb_location] using hnext)
      refine ⟨rest.foldl absorb first :: merged, ?_, .cons (merged_foldl_absorb first rest) hagree⟩
      rw [List.flatten_cons, List.foldl_append, List.foldl_cons,
        report_apart records (by simpa using hbefore),
        foldl_report_run records (List.forall_mem_cons.mp hlevel).2, hlisted]
      simp

/-- A merging collector keeps one record for every longest run of diagnostics at one
location: the first of the run, listing the messages of the run that are no piece of an
earlier one.  The list is that of the distinct messages exactly if they can be told
apart by their pieces. -/
theorem records_of_runs (found : List Diagnostic) :
    List.Forall₂ (Merged listed) (found.splitBy together)
        (found.foldl report (empty true)).toList ∧
      ∀ messages, listed messages = messages.eraseDups ↔ Distinguishable messages := by
  refine ⟨?_, listed_eq_eraseDups_iff⟩
  obtain ⟨merged, hrecords, hagree⟩ := foldl_report_runs
    (List.nil_notMem_splitBy together found)
    (fun run held => by simpa [together] using List.isChain_of_mem_splitBy held)
    (by simpa [together] using List.isChain_getLast_head_splitBy together found) #[] (by simp)
  rw [List.flatten_splitBy] at hrecords
  rw [empty, hrecords]
  simpa using hagree

/-- A function that reads a property with a separator in its name, called twice. -/
def repeatedKey : List Diagnostic :=
  ["1:40", "1:47"].map fun call =>
    .ofProblem ⟨1, 23⟩ (.missingProperty "'a\n    b'" "{}") ["f (1:23)", call]

/-- Two reports of one message that has a separator inside are listed twice. -/
theorem separator_in_message_repeats :
    ¬ List.Forall₂ (Merged List.eraseDups) (repeatedKey.splitBy together)
      (repeatedKey.foldl report (empty true)).toList := by
  have hrun : repeatedKey.splitBy together = [repeatedKey] := by decide +kernel
  have honce : separator.intercalate (repeatedKey.map message).eraseDups
      = "No property 'a\n    b' defined on {}." := by decide +kernel
  have htwice : (repeatedKey.foldl report (empty true)).toList.map message
      ≠ ["No property 'a\n    b' defined on {}."] := by decide +kernel
  intro hmerged
  rw [hrun] at hmerged
  obtain ⟨record, rest, ⟨first, others, -, rfl⟩, hnone, hrecords⟩ :=
    List.forall₂_cons_left_iff.mp hmerged
  obtain rfl := List.forall₂_nil_left_iff.mp hnone
  exact htwice (by simp [hrecords, honce])

end Diagnostics

end ScriptCheck
