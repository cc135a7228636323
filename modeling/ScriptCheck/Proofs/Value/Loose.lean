import Mathlib.Order.Compare
import ScriptCheck.Value.Equality

/-!
# Loose equality

The operator `==` converts a pair of values, one side at a time, until it can answer.  The main
result: two conversions are enough for every pair, both orders of a pair go through mirrored
conversions to the same answer, and what `===` takes for equal `==` does too.
-/

namespace ScriptCheck

namespace Number

open Float.Model (UnpackedFloat)

/-- Numbers compared in the other order give the opposite; not a number compares with none. -/
theorem compare_swap (x y : UnpackedFloat) :
    y.compare x = (x.compare y).map Ordering.swap := by
  cases x with
  | notANumber => cases y <;> rfl
  | infinity sign =>
      cases y with
      | infinity other => cases sign <;> cases other <;> rfl
      | notANumber | zero | finite => cases sign <;> rfl
  | zero sign =>
      cases y with
      | infinity other | finite other => cases other <;> rfl
      | notANumber | zero => rfl
  | finite sign mantissa exponent =>
      cases y with
      | infinity other => cases sign <;> cases other <;> rfl
      | notANumber | zero => cases sign <;> rfl
      | finite other mantissa' exponent' =>
          have hsize : (compare exponent' exponent).then (compare mantissa' mantissa) =
              ((compare exponent exponent').then (compare mantissa mantissa')).swap := by
            rw [Ordering.swap_then, ← Std.OrientedCmp.eq_swap, ← Std.OrientedCmp.eq_swap]
          cases sign <;> cases other
          case positive.positive => exact congrArg some hsize
          case negative.negative => exact congrArg (some ·.swap) hsize
          all_goals rfl

/-- The order of two numbers does not matter to their equality. -/
theorem beq_swap (x y : Float) : (y == x) = (x == y) := by
  change (y.toModel.unpack.compare x.toModel.unpack == some .eq) =
    (x.toModel.unpack.compare y.toModel.unpack == some .eq)
  rw [compare_swap]
  cases x.toModel.unpack.compare y.toModel.unpack with
  | none => rfl
  | some order => cases order <;> rfl

end Number

namespace Value

variable {a b c d : Value}

/-! ## The two orders of a pair -/

theorem strictEquals_swap (a b : Value) : strictEquals b a = strictEquals a b := by
  cases a <;> cases b <;> first | rfl | exact Bool.beq_comm | exact Number.beq_swap _ _

theorem sameSort_swap (a b : Value) : b.sameSort a = a.sameSort b :=
  congrArg₂ (· && ·) Bool.beq_comm Bool.beq_comm

/-- Values that `===` takes for equal are of one sort, and nullish both or neither. -/
theorem sameSort_of_strictEquals (h : strictEquals a b = true) :
    a.sameSort b = true ∧ a.isNullish = b.isNullish := by
  cases a <;> cases b <;> first | exact ⟨rfl, rfl⟩ | exact Bool.noConfusion h

/-- A pair in the other order is converted to the same values in the other order. -/
theorem converted?_swap (a b : Value) : converted? b a = (converted? a b).map Prod.swap := by
  unfold converted?
  rw [sameSort_swap, Bool.or_comm b.isNullish]
  split
  · rfl
  · rename_i h
    cases a <;> cases b <;> first | rfl | exact absurd rfl h

/-- A pair in the other order is answered alike. -/
theorem settled_swap (a b : Value) : settled b a = settled a b := by
  unfold settled
  rw [sameSort_swap, strictEquals_swap, Bool.or_comm b.isNullish, Bool.and_comm b.isNullish]
  split
  · rfl
  · split
    · rfl
    · cases a <;> cases b <;> first | rfl | exact Number.beq_swap _ _

/-! ## Runs of conversions -/

theorem looseEquals_of_converted? (h : converted? a b = some (c, d)) :
    looseEquals a b = looseEquals c d := by
  rw [looseEquals]
  split
  · rename_i heq
    cases h.symm.trans heq
    rfl
  · rename_i heq
    cases h.symm.trans heq

theorem looseEquals_of_settled (h : converted? a b = none) : looseEquals a b = settled a b := by
  rw [looseEquals]
  split
  · rename_i heq
    cases h.symm.trans heq
  · rfl

/-- `null` and `undefined` equal each other and nothing else. -/
theorem looseEquals_of_isNullish (h : (a.isNullish || b.isNullish) = true) :
    looseEquals a b = (a.isNullish && b.isNullish) := by
  have hnone : converted? a b = none := if_pos (by rw [h, Bool.true_or])
  have hsettled : settled a b = (a.isNullish && b.isNullish) := if_pos h
  rw [looseEquals_of_settled hnone, hsettled]

/-- So many conversions lead from a pair to one that `==` answers. -/
inductive Leads : Nat → Value × Value → Value × Value → Prop
  | done {a b : Value} : converted? a b = none → Leads 0 (a, b) (a, b)
  | step {count : Nat} {a b c d : Value} {last : Value × Value} : converted? a b = some (c, d) →
      Leads count (c, d) last → Leads (count + 1) (a, b) last

namespace Leads

variable {count : Nat} {first last : Value × Value}

/-- The other order of a pair leads to the other order of what it leads to. -/
theorem swap (h : Leads count first last) : Leads count first.swap last.swap := by
  induction h with
  | done hnone => exact .done (by rw [converted?_swap, hnone]; rfl)
  | step hsome _ ih => exact .step (by rw [converted?_swap, hsome]; rfl) ih

/-- What a pair leads to is answered in its place. -/
theorem looseEquals_eq (h : Leads count first last) :
    looseEquals first.1 first.2 = settled last.1 last.2 := by
  induction h with
  | done hnone => exact looseEquals_of_settled hnone
  | step hsome _ ih => rw [← ih, looseEquals_of_converted? hsome]

theorem count_le (h : Leads count first last) :
    count ≤ first.1.conversions + first.2.conversions := by
  induction h with
  | done => exact Nat.zero_le _
  | step hsome _ ih =>
      have hless := conversions_converted? hsome
      simp only at ih ⊢
      omega

end Leads

theorem conversions_le_one (value : Value) : value.conversions ≤ 1 := by
  cases value <;> simp [conversions]

theorem exists_leads (a b : Value) : ∃ count last, Leads count (a, b) last := by
  fun_induction looseEquals a b with
  | case1 a b c d hsome ih =>
      obtain ⟨count, last, hrest⟩ := ih
      exact ⟨count + 1, last, .step hsome hrest⟩
  | case2 a b hnone => exact ⟨0, (a, b), .done hnone⟩

theorem looseEquals_swap (a b : Value) : looseEquals b a = looseEquals a b := by
  obtain ⟨count, ⟨c, d⟩, hleads⟩ := exists_leads a b
  calc looseEquals b a = settled d c := hleads.swap.looseEquals_eq
    _ = settled c d := settled_swap c d
    _ = looseEquals a b := hleads.looseEquals_eq.symm

/-- Values that `===` takes for equal are equal without a conversion. -/
theorem looseEquals_of_strictEquals (h : strictEquals a b = true) : looseEquals a b = true := by
  obtain ⟨hsort, hnullish⟩ := sameSort_of_strictEquals h
  have hnone : converted? a b = none := by simp [converted?, hsort]
  rw [looseEquals_of_settled hnone]
  unfold settled
  rw [if_pos hsort, ← hnullish, Bool.or_self, Bool.and_self]
  split
  · assumption
  · exact h

/-! ## Arrays and objects -/

theorem looseEquals_of_identities (ha : a.isPrimitive = false) (hb : b.isPrimitive = false) :
    looseEquals a b = strictEquals a b := by
  cases a <;> cases b <;>
    first
    | exact looseEquals_of_settled rfl
    | exact Bool.noConfusion ha
    | exact Bool.noConfusion hb

/-- How an array or object is converted: a truth value next to it goes first. -/
theorem converted?_of_identity (ha : a.isPrimitive = false) :
    (∀ p, converted? a (bool p) = some (a, number (bool p).toNumber)) ∧
      (∀ x, converted? a (number x) = some (a.toPrimitive, number x)) ∧
      ∀ s, converted? a (string s) = some (a.toPrimitive, string s) := by
  cases a <;>
    first
    | exact ⟨fun _ => rfl, fun _ => rfl, fun _ => rfl⟩
    | exact Bool.noConfusion ha

theorem isNullish_toPrimitive (value : Value) : value.toPrimitive.isNullish = value.isNullish := by
  cases value <;> rfl

/-- Next to a primitive an array or object may be replaced by its text. -/
theorem looseEquals_toPrimitive_left (a : Value) (hb : b.isPrimitive = true) :
    looseEquals a.toPrimitive b = looseEquals a b := by
  cases ha : a.isPrimitive with
  | true => rw [toPrimitive, if_pos ha]
  | false =>
      obtain ⟨hbool, hnumber, hstring⟩ := converted?_of_identity ha
      cases b with
      | undefined | null =>
          rw [looseEquals_of_isNullish (Bool.or_true _), looseEquals_of_isNullish (Bool.or_true _),
            isNullish_toPrimitive]
      | bool p =>
          have htext : converted? a.toPrimitive (bool p) =
              some (a.toPrimitive, number (bool p).toNumber) := by
            rw [toPrimitive, ha]
            rfl
          rw [looseEquals_of_converted? htext, looseEquals_of_converted? (hbool p),
            looseEquals_of_converted? (hnumber _)]
      | number x => rw [looseEquals_of_converted? (hnumber x)]
      | string s => rw [looseEquals_of_converted? (hstring s)]
      | array | object => exact Bool.noConfusion hb

/-- Unless both are arrays or objects, values are equal as primitives. -/
theorem looseEquals_toPrimitive (h : a.isPrimitive = true ∨ b.isPrimitive = true) :
    looseEquals a.toPrimitive b.toPrimitive = looseEquals a b := by
  rcases h with ha | hb
  · have hsame : a.toPrimitive = a := if_pos ha
    rw [hsame, looseEquals_swap, looseEquals_toPrimitive_left b ha, looseEquals_swap]
  · have hsame : b.toPrimitive = b := if_pos hb
    rw [hsame, looseEquals_toPrimitive_left a hb]

/-! ## Both orders -/

/-- **Loose equality settles and is symmetric.**  At most two conversions lead from a pair to one
that is answered at once; the pair in the other order goes through the mirrored conversions and
gets the same answer.  Strict equality is symmetric too and implies loose equality. -/
theorem looseEquals_settles (a b : Value) :
    (∃ count c d, count ≤ 2 ∧ Leads count (a, b) (c, d) ∧ Leads count (b, a) (d, c) ∧
      looseEquals a b = settled c d) ∧
    looseEquals b a = looseEquals a b ∧
    (strictEquals a b = true → looseEquals a b = true) ∧
    strictEquals b a = strictEquals a b := by
  obtain ⟨count, ⟨c, d⟩, hleads⟩ := exists_leads a b
  have hbound : count ≤ 2 := Nat.le_trans hleads.count_le
    (Nat.add_le_add (conversions_le_one a) (conversions_le_one b))
  exact ⟨⟨count, c, d, hbound, hleads, hleads.swap, hleads.looseEquals_eq⟩,
    looseEquals_swap a b, looseEquals_of_strictEquals, strictEquals_swap a b⟩

theorem looseEquals_settles_nestedArray :
    let inner := array 3 [string "x", null]
    let value := array 7 [inner, object 4 []]
    strictEquals value value = true ∧ looseEquals value value = true :=
  ⟨by decide, (looseEquals_settles _ _).2.2.1 (by decide)⟩

end Value

end ScriptCheck
