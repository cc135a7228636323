import ScriptCheck.Proofs.Grammar.Reading

/-!
# Reading inverts writing

The words of an expression are read back to the same expression.  An operand without
parentheses is read in rounds: its left side begins them, and each operator or group that
follows adds one.  What stands after the operand does not reach into it, because an operand
that it could reach into was written in parentheses.
-/

namespace ScriptCheck

open Grammar Parse

namespace Grammar

/-- One round of a sequence: it ends, or a comma is read and the expression after it. -/
def sequenceRound (g : Grammar) (expressions : List NodeId) :
    Parse (List NodeId ⊕ List NodeId) := do
  if ← isAt (.mark .comma) then
    let _ ← advance
    return .inl ((← g.expression .comma) :: expressions)
  else
    return .inr expressions.reverse

theorem sequence_eq (g : Grammar) (left : NodeId) :
    sequence g left = (do
      let start ← startOf left
      let expressions ← loop (sequenceRound g) [left]
      push (.sequence expressions) start) := rfl

end Grammar

/-! ## Operands that are read back -/

/-- What stands at an index does not reach into an operand that is read with a power. -/
def EndsAt (stream : TokenStream) (index : Nat) (power : Power) : Prop :=
  (stream.get index).kind ≠ .mark .arrow ∧ Power.ofToken (stream.get index).kind ≤ power

/-- The words of an expression, without parentheses around it, are read back to it in some
rounds. -/
def Expression.ReadsBack (stream : TokenStream) (e : Expression) : Prop :=
  ∀ depth least power c stop nodes, power.rank < least → least ≤ e.power.rank →
    stream.Spells c stop (e.bare least) → stop ≤ c + depth + 1 → EndsAt stream stop e.rightPower →
      Begins stream (upTo depth) power c stop nodes (fun after id => e.StandsAt after id)

section ReadsBack

variable {stream : TokenStream} {depth least c stop : Nat} {power : Power} {nodes : Array Node}
  {e : Expression}

theorem EndsAt.of_spells {word : Word} {words : List Word}
    (h : stream.Spells c stop (word :: words)) (harrow : word.kind ≠ .mark .arrow)
    (hpower : (Power.ofToken word.kind).rank ≤ power.rank) : EndsAt stream c power :=
  ⟨by rwa [h.kind], by rw [h.kind]; exact hpower⟩

theorem EndsAt.of_comma_or_close {close : Punctuator} {index : Nat} (hclose : close.Closes)
    (h : (stream.get index).kind = .mark .comma ∨ (stream.get index).kind = .mark close) :
    EndsAt stream index .comma := by
  unfold EndsAt
  rcases h with h | h <;> rw [h]
  · decide
  · rcases hclose with rfl | rfl | rfl <;> decide

theorem Phrase.lt {words : List Word} (h : Phrase words) (hspells : stream.Spells c stop words) :
    c < stop ∧ stop < stream.size := by
  obtain ⟨first, rest, rfl, -⟩ := h.first
  have hle := hspells.tail.le
  exact ⟨hle, hspells.tail.stop_lt_size hspells.lt⟩

namespace Expression

theorem ReadsBack.yields_bare (h : e.ReadsBack stream) (hpower : power.rank < e.power.rank)
    (hassign : power ≠ .assignment) (hspells : stream.Spells c stop (e.bare (power.rank + 1)))
    (hdepth : stop ≤ c + depth) (hends : EndsAt stream stop power) :
    Yields stream ((upTo depth).expression power) c stop nodes
      (fun after id => e.StandsAt after id) := by
  have hlt := (e.phrase _).lt hspells
  cases depth with
  | zero => omega
  | succ depth =>
      have hne : power.rank ≠ Power.assignment.rank := by cases power <;> simp_all [Power.rank]
      have hreach := Nat.le_trans hends.2 (le_rightPower_of_lt hpower hne)
      exact (h depth _ power c stop nodes (Nat.lt_succ_self _) hpower hspells (by omega)
        ⟨hends.1, hreach⟩).ended hends.2 (Nat.le_of_lt hlt.2)

/-- An expression in parentheses is not taken for the parameters of an arrow function. -/
theorem isArrowAhead_enclosed {mid : Nat}
    (hopen : stream.Spells c mid (.mark .openParen :: e.bare least))
    (hclose : stream.Spells mid stop [.mark .closeParen])
    (harrow : (stream.get stop).kind ≠ .mark .arrow) :
    isArrowAhead stream ⟨c, nodes⟩ = .ok (false, ⟨c, nodes⟩) := by
  obtain rfl : stop = mid + 1 := hclose.tail
  rw [isArrowAhead_eq, hopen.map_kind_drop, hclose.map_kind_drop, List.map_cons, List.cons_append]
  change Except.ok (arrowFollows 1 _, _) = _
  rw [(e.phrase least).balanced]
  change Except.ok (((stream.tokens.toList.drop (mid + 1)).map Token.kind).head? == _, _) = _
  rw [TokenStream.head?_map_kind_drop hclose.lt]
  simp [harrow]

theorem ReadsBack.yields_enclosed (h : e.ReadsBack stream) (hless : e.power.rank < least)
    (hspells : stream.Spells c stop (e.write least)) (hdepth : stop ≤ c + depth + 1)
    (harrow : (stream.get stop).kind ≠ .mark .arrow) :
    Yields stream (operand (upTo depth)) c stop nodes (fun after id => e.StandsAt after id) := by
  rw [write_of_gt hless, ← List.cons_append] at hspells
  obtain ⟨mid, hopen, hclose⟩ := TokenStream.spells_append.mp hspells
  obtain rfl : stop = mid + 1 := hclose.tail
  refine .step currentKind_eq ?_
  rw [hopen.kind]
  refine .step (isArrowAhead_enclosed hopen hclose harrow) ?_
  refine .step (expect_eq hopen.kind hopen.lt) ?_
  have hpos : Power.lowest.rank < e.power.rank := e.power_pos
  refine (h.yields_bare hpos (by simp) hopen.tail (by omega)
    (.of_spells hclose (by simp [Word.mark]) (by simp [Word.mark, Power.ofToken]))).bind
      fun id after _ hid => ?_
  exact .step (expect_eq hclose.kind hclose.lt) (.pure hid)

/-- An operand begins the rounds of the expression that it is the left side of. -/
theorem ReadsBack.begins (h : e.ReadsBack stream) (hpower : power.rank < least)
    (hspells : stream.Spells c stop (e.write least)) (hdepth : stop ≤ c + depth + 1)
    (harrow : (stream.get stop).kind ≠ .mark .arrow)
    (hreach : least ≤ e.power.rank → Power.ofToken (stream.get stop).kind ≤ e.rightPower) :
    Begins stream (upTo depth) power c stop nodes (fun after id => e.StandsAt after id) := by
  by_cases hleast : least ≤ e.power.rank
  · rw [write_of_le hleast] at hspells
    exact h depth least power c stop nodes hpower hleast hspells hdepth ⟨harrow, hreach hleast⟩
  · exact .of_operand (h.yields_enclosed (Nat.not_le.mp hleast) hspells hdepth harrow)
      ((e.phrase_write least).lt hspells).1

theorem ReadsBack.continued {word : Word} {words : List Word} {Q : Array Node → NodeId → Prop}
    (h : e.ReadsBack stream) (hspells : stream.Spells c stop (e.write least ++ word :: words))
    (hdepth : stop ≤ c + depth + 1) (hpower : power.rank < least)
    (harrow : word.kind ≠ .mark .arrow)
    (hreach : least ≤ e.power.rank → Power.ofToken word.kind ≤ e.rightPower)
    (hgoes : power.rank < (Power.ofToken word.kind).rank)
    (hcontinue : ∀ mid left after, c < mid → stream.Spells mid stop (word :: words) →
      e.StandsAt after left →
        Yields stream (continuation (upTo depth) left word.kind) mid stop after Q) :
    Begins stream (upTo depth) power c stop nodes Q := by
  obtain ⟨mid, hleft, hword⟩ := TokenStream.spells_append.mp hspells
  have hlt := ((e.phrase_write least).lt hleft).1
  have hle := hword.tail.le
  have hbegins : Begins stream (upTo depth) power c mid nodes
      (fun after id => e.StandsAt after id) :=
    h.begins hpower hleft (by omega) (by rwa [hword.kind]) (by rwa [hword.kind])
  refine hbegins.continued (by rwa [hword.kind]) (by omega) fun left after _ hstands => ?_
  rw [hword.kind]
  exact hcontinue mid left after hlt hword hstands

theorem ReadsBack.yields (h : e.ReadsBack stream) (hassign : power ≠ .assignment)
    (hspells : stream.Spells c stop (e.writeAbove power)) (hdepth : stop ≤ c + depth)
    (hends : EndsAt stream stop power) :
    Yields stream ((upTo depth).expression power) c stop nodes
      (fun after id => e.StandsAt after id) := by
  by_cases hpower : power.rank < e.power.rank
  · rw [writeAbove, write_of_le hpower] at hspells
    exact h.yields_bare hpower hassign hspells hdepth hends
  · have hlt := (e.phrase_write _).lt hspells
    cases depth with
    | zero => omega
    | succ depth =>
        have hless := Nat.lt_succ_of_le (Nat.not_lt.mp hpower)
        exact (Begins.of_operand (h.yields_enclosed hless hspells hdepth hends.1) hlt.1).ended
          hends.2 (Nat.le_of_lt hlt.2)

/-! ## One construct after another -/

theorem primaryKind_eq {token : Token} {state : ParseState} (written : WrittenLiteral)
    (hkind : token.kind = written.word.kind) (hvalue : token.value = written.word.value) :
    primaryKind token stream state = .ok (.literal written.literal, state) := by
  unfold primaryKind
  rw [hkind]
  cases written with
  | number numeral =>
      have hreads : numberValue token.value token.span.start stream state =
          .ok (numeral.value, state) := by
        rw [hvalue]
        unfold numberValue
        simp only [WrittenLiteral.word, numeral.reads]
        rfl
      exact bind_of_eq_ok hreads
  | string s =>
      rw [hvalue]
      rfl
  | boolean b => cases b <;> rfl
  | null => rfl

theorem readsBack_literal (written : WrittenLiteral) : (literal written).ReadsBack stream := by
  intro depth least power c stop nodes _ _ hspells _ _
  change stream.Spells c stop [written.word] at hspells
  obtain rfl : stop = c + 1 := hspells.tail
  refine .of_operand (.step currentKind_eq ?_) (Nat.lt_succ_self c)
  have hprimary : Yields stream primary c (c + 1) nodes
      (fun after id => (literal written).StandsAt after id) := by
    refine .step current_eq (.step (primaryKind_eq written hspells.kind hspells.value) ?_)
    refine .step (advance_eq hspells.lt) (.push fun span => ?_)
    simp [StandsAt]
  rw [hspells.kind]
  cases written with
  | boolean b => cases b <;> exact hprimary
  | _ => exact hprimary

theorem readsBack_this : Expression.this.ReadsBack stream := by
  intro depth least power c stop nodes _ _ hspells _ _
  change stream.Spells c stop [.keyword .this_] at hspells
  obtain rfl : stop = c + 1 := hspells.tail
  refine .of_operand (.step currentKind_eq ?_) (Nat.lt_succ_self c)
  have hthis : primaryKind (stream.get c) stream ⟨c, nodes⟩ = .ok (.thisExpr, ⟨c, nodes⟩) := by
    unfold primaryKind
    rw [hspells.kind]
    rfl
  rw [hspells.kind]
  refine .step current_eq (.step hthis (.step (advance_eq hspells.lt) (.push fun span => ?_)))
  simp [StandsAt]

theorem readsBack_identifier (name : String) :
    (place (.identifier name)).ReadsBack stream := by
  intro depth least power c stop nodes _ _ hspells _ hends
  change stream.Spells c stop [.identifier name] at hspells
  obtain rfl : stop = c + 1 := hspells.tail
  refine .of_operand (.step currentKind_eq ?_) (Nat.lt_succ_self c)
  rw [hspells.kind]
  refine .step (peek_eq 1) ?_
  rw [if_neg hends.1]
  refine .step (expect_eq hspells.kind hspells.lt) (.push fun span => ?_)
  simp [StandsAt, Place.StandsAt, hspells.value, Word.identifier]

theorem readsBack_named {owner : Expression} (howner : owner.ReadsBack stream) (name : String) :
    (place (.named owner name)).ReadsBack stream := by
  intro depth least power c stop nodes hpower hleast hspells hdepth _
  have hwords : (place (.named owner name)).bare least =
      owner.write (max Power.call.rank least) ++ [Word.mark .dot, .member name] := rfl
  rw [hwords] at hspells
  refine howner.continued hspells hdepth (by omega) (by simp [Word.mark])
    (fun h => le_rightPower_of_call_le (by omega)) (Nat.lt_of_lt_of_le hpower hleast)
      fun mid left after _ hdot hleft => ?_
  have hname := hdot.tail
  obtain rfl : stop = mid + 2 := hname.tail
  refine .step (startOf_eq left) (.step (expect_eq hdot.kind hdot.lt) (.step current_eq ?_))
  have hallowed : (stream.get (mid + 1)).kind = .identifier ∨
      isReserved (stream.get (mid + 1)).value = true := by
    rw [hname.kind, hname.value]
    unfold Word.member Lexer.nameKind isReserved
    cases Keyword.ofText? name <;> simp
  rw [if_pos hallowed]
  refine .step (advance_eq hname.lt) (.push fun span => ?_)
  refine ⟨left, ?_, hleft.appends (.push _ _)⟩
  simp [hname.value, Word.member]

theorem readsBack_computed {owner key : Expression} (howner : owner.ReadsBack stream)
    (hkey : key.ReadsBack stream) : (place (.computed owner key)).ReadsBack stream := by
  intro depth least power c stop nodes hpower hleast hspells hdepth _
  have hwords : (place (.computed owner key)).bare least =
      owner.write (max Power.call.rank least) ++
        .mark .openBracket :: (key.writeAbove .lowest ++ [Word.mark .closeBracket]) := rfl
  rw [hwords] at hspells
  refine howner.continued hspells hdepth (by omega) (by simp [Word.mark])
    (fun h => le_rightPower_of_call_le (by omega)) (Nat.lt_of_lt_of_le hpower hleast)
      fun mid left after _ hopen hleft => ?_
  obtain ⟨last, hkey', hclose⟩ := TokenStream.spells_append.mp hopen.tail
  obtain rfl : stop = last + 1 := hclose.tail
  refine .step (startOf_eq left) (.step (expect_eq hopen.kind hopen.lt) ?_)
  refine (hkey.yields (by simp) hkey' (by omega)
    (.of_spells hclose (by simp [Word.mark]) (by simp [Word.mark, Power.ofToken]))).bind
      fun keyId after' hkept hkeyId => ?_
  refine .step (expect_eq hclose.kind hclose.lt) (.push fun span => ?_)
  exact ⟨left, keyId, by simp, (hleft.appends hkept).appends (.push _ _),
    hkeyId.appends (.push _ _)⟩

/-- An operand between commas is an item of a list. -/
theorem ReadsBack.readsItem {close : Punctuator} (h : e.ReadsBack stream) (hclose : close.Closes) :
    ReadsItem stream depth close ((upTo depth).expression .comma) (e.writeAbove .comma)
      (fun after id => e.StandsAt after id) := by
  obtain ⟨first, rest, hfirst, hopens⟩ := (e.phrase_write (Power.comma.rank + 1)).first
  refine ⟨⟨first, rest, hfirst, hopens.kind_ne hclose⟩, fun c stop nodes hspells hdepth hends => ?_⟩
  exact h.yields (by simp) hspells hdepth (.of_comma_or_close hclose hends)

theorem yields_items {close : Punctuator} {items : List Expression} (hclose : close.Closes)
    (h : ∀ e ∈ items, e.ReadsBack stream)
    (hspells : stream.Spells c stop (commaSeparated (itemWords items) ++ [Word.mark close]))
    (hdepth : stop ≤ c + depth + 1) :
    Yields stream (commaList (.mark close) ((upTo depth).expression .comma)) c stop nodes
      (fun after ids => ItemsStandAt after items ids) := by
  rw [itemWords_eq_map] at hspells
  have hkept : ∀ before after (e : Expression) id, Appends before after →
      e.StandsAt before id → e.StandsAt after id := fun _ _ _ _ hkept he => he.appends hkept
  exact (yields_commaList hclose.ne_comma hkept (fun e he => (h e he).readsItem hclose) hspells
    hdepth).mono fun _ _ _ hids => itemsStandAt_iff.mpr hids

theorem readsBack_array {elements : List Expression}
    (h : ∀ e ∈ elements, e.ReadsBack stream) : (array elements).ReadsBack stream := by
  intro depth least power c stop nodes _ _ hspells hdepth _
  rw [bare] at hspells
  have hlt := hspells.tail.le
  refine .of_operand (.step currentKind_eq ?_) (by omega)
  rw [hspells.kind]
  refine .step (advance_eq hspells.lt) ?_
  refine (yields_items (.inr (.inl rfl)) h hspells.tail (by omega : stop ≤ c + 1 + depth + 1)).bind
    fun ids after _ hids => .push fun span => ?_
  rw [StandsAt]
  exact ⟨ids, by simp, hids.appends (.push _ _)⟩

theorem readsItem_property {property : String × Expression}
    (h : property.2.ReadsBack stream) :
    ReadsItem stream depth .closeCurly (Grammar.property (upTo depth)) (propertyWord property)
      (fun after id => PropertyStandsAt after property id) := by
  refine ⟨⟨_, _, rfl, by simp [Word.string]⟩, fun c stop nodes hspells hdepth hends => ?_⟩
  have hcolon := hspells.tail
  have hkey : propertyKey (stream.get c) stream ⟨c, nodes⟩ = .ok (property.1, ⟨c, nodes⟩) := by
    unfold propertyKey
    rw [hspells.kind, hspells.value]
    rfl
  refine .step current_eq (.step hkey (.step (advance_eq hspells.lt) (.here hcolon.kind ?_)))
  refine .step (advance_eq hcolon.lt) ?_
  refine (h.yields (by simp) hcolon.tail (by omega)
    (.of_comma_or_close (.inr (.inr rfl)) hends)).bind fun valueId after _ hvalue =>
      .push fun span => ?_
  exact ⟨valueId, by simp, hvalue.appends (.push _ _)⟩

theorem readsBack_object {properties : List (String × Expression)}
    (h : ∀ property ∈ properties, property.2.ReadsBack stream) :
    (object properties).ReadsBack stream := by
  intro depth least power c stop nodes _ _ hspells hdepth _
  rw [bare, propertyWords_eq_map] at hspells
  have hlt := hspells.tail.le
  refine .of_operand (.step currentKind_eq ?_) (by omega)
  rw [hspells.kind]
  refine .step (advance_eq hspells.lt) ?_
  have hkept : ∀ before after property id, Appends before after →
      PropertyStandsAt before property id → PropertyStandsAt after property id := by
    rintro before after property id hkept ⟨valueId, hkind, hvalue⟩
    exact ⟨valueId, hkept.kindAt hkind (by simp), hvalue.appends hkept⟩
  refine (yields_commaList (by simp) hkept
    (fun property hmem => readsItem_property (h property hmem))
    hspells.tail (by omega : stop ≤ c + 1 + depth + 1)).bind fun ids after _ hids =>
      .push fun span => ?_
  rw [StandsAt]
  exact ⟨ids, by simp, (propertiesStandAt_iff.mpr hids).appends (.push _ _)⟩

theorem readsBack_unary {argument : Expression} (op : UnaryOp)
    (h : argument.ReadsBack stream) : (unary op argument).ReadsBack stream := by
  intro depth least power c stop nodes _ _ hspells hdepth hends
  have hwords : (unary op argument).bare least = op.word :: argument.writeAbove .exponent := rfl
  rw [hwords] at hspells
  have hlt := hspells.tail.le
  have hoperand : operand (upTo depth) stream ⟨c, nodes⟩ =
      Grammar.unary (upTo depth) op stream ⟨c, nodes⟩ := by
    refine (bind_of_eq_ok currentKind_eq).trans ?_
    rw [hspells.kind]
    cases op <;> rfl
  have hrun : Yields stream (Grammar.unary (upTo depth) op) c stop nodes
      (fun after id => (unary op argument).StandsAt after id) := by
    refine .step (advance_eq hspells.lt) ?_
    refine (h.yields (by simp) hspells.tail (by omega) hends).bind
      fun argumentId after _ hargument => .push fun span => ?_
    rw [StandsAt]
    exact ⟨argumentId, by simp, hargument.appends (.push _ _)⟩
  exact .of_operand (by unfold Yields; rwa [hoperand]) (by omega)

theorem readsBack_binary {left right : Expression} (op : BinaryOp)
    (hleft : left.ReadsBack stream) (hright : right.ReadsBack stream) :
    (binary op left right).ReadsBack stream := by
  intro depth least power c stop nodes hpower hleast hspells hdepth hends
  have hwords : (binary op left right).bare least =
      left.write op.leftRank ++ op.word :: right.writeAbove op.rightPower := rfl
  rw [hwords] at hspells
  have hrank : power.rank < op.power.rank := Nat.lt_of_lt_of_le hpower hleast
  have hreach : op.leftRank ≤ left.power.rank → op.power ≤ left.rightPower := fun h => by
    rcases op.power_cases with ⟨hpow, hexponent⟩ | ⟨hpow, hlow, hhigh⟩
    · rw [BinaryOp.leftRank, if_pos hpow, hexponent] at h
      rw [hexponent]
      exact le_rightPower_of_lt h (by decide)
    · rw [BinaryOp.leftRank, if_neg hpow] at h
      exact le_rightPower_of_le h (Nat.le_trans (by decide) hlow)
        (fun heq => absurd hhigh (by rw [heq]; decide))
        (fun heq => absurd hhigh (by rw [heq]; decide))
  refine hleft.continued hspells hdepth ?_ (by cases op <;> decide) hreach hrank
    fun mid leftId after _ hop hleftId => ?_
  · unfold BinaryOp.leftRank
    split <;> omega
  have hcontinuation : continuation (upTo depth) leftId op.word.kind =
      Grammar.binary (upTo depth) leftId op op.power := by
    cases op <;> rfl
  rw [hcontinuation]
  refine .step (startOf_eq leftId) (.step (advance_eq hop.lt) ?_)
  have hassign : op.rightPower ≠ .assignment := by cases op <;> decide
  refine (hright.yields hassign hop.tail (by omega) hends).bind
    fun rightId after' hkept hrightId => .push fun span => ?_
  rw [StandsAt]
  exact ⟨leftId, rightId, by simp, (hleftId.appends hkept).appends (.push _ _),
    hrightId.appends (.push _ _)⟩

theorem readsBack_logical {left right : Expression} (op : LogicalOp)
    (hleft : left.ReadsBack stream) (hright : right.ReadsBack stream) :
    (logical op left right).ReadsBack stream := by
  intro depth least power c stop nodes hpower hleast hspells hdepth hends
  have hwords : (logical op left right).bare least =
      left.write op.power.rank ++ op.word :: right.writeAbove op.power := rfl
  rw [hwords] at hspells
  have hrank : power.rank < op.power.rank := Nat.lt_of_lt_of_le hpower hleast
  have hreach : op.power.rank ≤ left.power.rank → op.power ≤ left.rightPower := fun h => by
    refine le_rightPower_of_le h ?_ ?_ ?_ <;> cases op <;> decide
  refine hleft.continued hspells hdepth hrank (by cases op <;> decide) hreach hrank
    fun mid leftId after _ hop hleftId => ?_
  have hcontinuation : continuation (upTo depth) leftId op.word.kind =
      Grammar.logical (upTo depth) leftId op op.power := by
    cases op <;> rfl
  rw [hcontinuation]
  refine .step (startOf_eq leftId) (.step (advance_eq hop.lt) ?_)
  have hassign : op.power ≠ .assignment := by cases op <;> decide
  refine (hright.yields hassign hop.tail (by omega) hends).bind
    fun rightId after' hkept hrightId => .push fun span => ?_
  rw [StandsAt]
  exact ⟨leftId, rightId, by simp, (hleftId.appends hkept).appends (.push _ _),
    hrightId.appends (.push _ _)⟩

theorem readsBack_assign {target : Place} {value : Expression} (op : AssignOp)
    (htarget : (place target).ReadsBack stream) (hvalue : value.ReadsBack stream) :
    (assign op target value).ReadsBack stream := by
  intro depth least power c stop nodes hpower hleast hspells hdepth hends
  have hwords : (assign op target value).bare least =
      target.bare least ++ op.word :: value.writeAbove .comma := rfl
  rw [hwords] at hspells
  obtain ⟨mid, htarget', hop⟩ := TokenStream.spells_append.mp hspells
  have hle := htarget'.le
  have hle' := hop.tail.le
  have hassignment : Power.ofToken op.word.kind = .assignment := by cases op <;> rfl
  have hbegins : Begins stream (upTo depth) power c mid nodes
      (fun after id => (place target).StandsAt after id) := by
    refine htarget depth least power c mid nodes hpower ?_ htarget' (by omega) ⟨?_, ?_⟩
    · refine Nat.le_trans hleast ?_
      cases target <;> simp [Expression.power, Place.power, Power.rank]
    · rw [hop.kind]
      cases op <;> decide
    · rw [hop.kind, hassignment]
      change Power.assignment.rank ≤ Power.primary.rank
      decide
  refine hbegins.continued ?_ (by omega) fun targetId after _ htargetId => ?_
  · rw [hop.kind, hassignment]
    exact Nat.lt_of_lt_of_le hpower hleast
  have hcontinuation : continuation (upTo depth) targetId op.word.kind =
      assignment (upTo depth) targetId op := by
    cases op <;> rfl
  rw [hop.kind, hcontinuation]
  have hrest : Yields stream (do
      let _ ← advance
      let valueId ← (upTo depth).expression .comma
      push (.assign op targetId valueId) (after.getD targetId default).span.start) mid stop after
      (fun after id => (assign op target value).StandsAt after id) := by
    refine .step (advance_eq hop.lt) ?_
    refine (hvalue.yields (by simp) hop.tail (by omega) hends).bind
      fun valueId after' hkept hvalueId => .push fun span => ?_
    rw [StandsAt]
    exact ⟨targetId, valueId, by simp, (Place.StandsAt.appends hkept htargetId).appends (.push _ _),
      hvalueId.appends (.push _ _)⟩
  refine .step (nodeAt_eq targetId) ?_
  cases target with
  | identifier name =>
      have hkind : (after.getD targetId default).kind = .identifier name := htargetId
      simp only [hkind]
      exact hrest
  | named owner name =>
      obtain ⟨ownerId, hkind, -⟩ := htargetId
      change (after.getD targetId default).kind = _ at hkind
      simp only [hkind]
      exact hrest
  | computed owner key =>
      obtain ⟨ownerId, keyId, hkind, -⟩ := htargetId
      change (after.getD targetId default).kind = _ at hkind
      simp only [hkind]
      exact hrest

theorem readsBack_conditional {test consequent alternate : Expression}
    (htest : test.ReadsBack stream) (hconsequent : consequent.ReadsBack stream)
    (halternate : alternate.ReadsBack stream) :
    (conditional test consequent alternate).ReadsBack stream := by
  intro depth least power c stop nodes hpower hleast hspells hdepth hends
  have hwords : (conditional test consequent alternate).bare least =
      test.writeAbove .conditional ++ Word.mark .question ::
        (consequent.writeAbove .comma ++ Word.mark .colon :: alternate.writeAbove .comma) := rfl
  rw [hwords] at hspells
  have hrank : power.rank < Power.conditional.rank := Nat.lt_of_lt_of_le hpower hleast
  refine htest.continued hspells hdepth (by omega) (by simp [Word.mark])
    (fun h => le_rightPower_of_lt h (by decide)) hrank
    fun mid testId after _ hquestion htestId => ?_
  obtain ⟨last, hconsequent', hcolon⟩ := TokenStream.spells_append.mp hquestion.tail
  have hle := hconsequent'.le
  have hle' := hcolon.tail.le
  refine .step (startOf_eq testId) (.step (expect_eq hquestion.kind hquestion.lt) ?_)
  refine (hconsequent.yields (by simp) hconsequent' (by omega)
    (.of_spells hcolon (by simp [Word.mark]) (by simp [Word.mark, Power.ofToken, Power.rank]))).bind
      fun consequentId after' hkept hconsequentId => ?_
  refine .step (expect_eq hcolon.kind hcolon.lt) ?_
  refine (halternate.yields (by simp) hcolon.tail (by omega) hends).bind
    fun alternateId after'' hkept' halternateId => .push fun span => ?_
  rw [StandsAt]
  exact ⟨testId, consequentId, alternateId, by simp,
    ((htestId.appends hkept).appends hkept').appends (.push _ _),
    (hconsequentId.appends hkept').appends (.push _ _), halternateId.appends (.push _ _)⟩

theorem readsBack_call {callee : Expression} {arguments : List Expression}
    (hcallee : callee.ReadsBack stream) (harguments : ∀ e ∈ arguments, e.ReadsBack stream) :
    (call callee arguments).ReadsBack stream := by
  intro depth least power c stop nodes hpower hleast hspells hdepth _
  have hwords : (call callee arguments).bare least = callee.write Power.call.rank ++
      .mark .openParen :: (commaSeparated (itemWords arguments) ++ [Word.mark .closeParen]) := rfl
  rw [hwords] at hspells
  have hrank : power.rank < Power.call.rank := Nat.lt_of_lt_of_le hpower hleast
  refine hcallee.continued hspells hdepth hrank (by simp [Word.mark])
    (fun h => le_rightPower_of_call_le h) hrank fun mid calleeId after _ hopen hcalleeId => ?_
  refine .step (startOf_eq calleeId) (.step (expect_eq hopen.kind hopen.lt) ?_)
  refine (yields_items (.inl rfl) harguments hopen.tail
    (by omega : stop ≤ mid + 1 + depth + 1)).bind fun ids after' hkept hids => .push fun span => ?_
  rw [StandsAt]
  exact ⟨calleeId, ids, by simp, (hcalleeId.appends hkept).appends (.push _ _),
    hids.appends (.push _ _)⟩

theorem readsBack_construct {callee : Expression} {arguments : List Expression}
    (hcallee : callee.ReadsBack stream) (harguments : ∀ e ∈ arguments, e.ReadsBack stream) :
    (construct callee arguments).ReadsBack stream := by
  intro depth least power c stop nodes _ _ hspells hdepth _
  have hwords : (construct callee arguments).bare least = .keyword .new_ ::
      (callee.writeAbove .call ++
        .mark .openParen :: (commaSeparated (itemWords arguments) ++ [Word.mark .closeParen])) :=
          rfl
  rw [hwords] at hspells
  obtain ⟨mid, hcallee', hopen⟩ := TokenStream.spells_append.mp hspells.tail
  have hle := hcallee'.le
  have hle' := hopen.tail.le
  refine .of_operand (.step currentKind_eq ?_) (by omega)
  rw [hspells.kind]
  refine .step (advance_eq hspells.lt) ?_
  refine (hcallee.yields (by simp) hcallee' (by omega)
    (.of_spells hopen (by simp [Word.mark]) (by simp [Word.mark, Power.ofToken]))).bind
      fun calleeId after _ hcalleeId => .here hopen.kind (.step (advance_eq hopen.lt) ?_)
  refine (yields_items (.inl rfl) harguments hopen.tail
    (by omega : stop ≤ mid + 1 + depth + 1)).bind fun ids after' hkept hids => .push fun span => ?_
  rw [StandsAt]
  exact ⟨calleeId, ids, by simp, (hcalleeId.appends hkept).appends (.push _ _),
    hids.appends (.push _ _)⟩

theorem yields_sequenceRounds {items : List Expression} {rounds : Nat}
    (h : ∀ e ∈ items, e.ReadsBack stream)
    (hspells : stream.Spells c stop ((itemWords items).flatMap (.mark .comma :: ·)))
    (hdepth : stop ≤ c + depth + 1) (hends : EndsAt stream stop .lowest)
    (hrounds : items.length < rounds) (read : List NodeId) :
    Yields stream (iterate (sequenceRound (upTo depth)) rounds read) c stop nodes
      (fun after ids => ∃ new, ids = read.reverse ++ new ∧ ItemsStandAt after items new) := by
  have hstop : (stream.get stop).kind ≠ .mark .comma := by
    intro hcomma
    have := hends.2
    rw [hcomma] at this
    exact absurd this (by decide)
  induction items generalizing c nodes rounds read with
  | nil =>
      obtain ⟨rounds, rfl⟩ := Nat.exists_eq_add_of_lt hrounds
      obtain rfl : stop = c := hspells
      have hlast : sequenceRound (upTo depth) read stream ⟨stop, nodes⟩ =
          .ok (.inr read.reverse, ⟨stop, nodes⟩) := by
        refine (bind_of_eq_ok (isAt_eq _)).trans ?_
        rw [decide_eq_false hstop]
        rfl
      exact .last hlast ⟨[], by simp, by simp [ItemsStandAt]⟩
  | cons e rest ih =>
      obtain ⟨rounds, rfl⟩ := Nat.exists_eq_add_of_lt (Nat.zero_lt_of_lt hrounds)
      rw [Nat.zero_add]
      simp only [List.length_cons] at hrounds
      rw [itemWords, List.flatMap_cons, List.cons_append] at hspells
      obtain ⟨mid, he, hrest⟩ := TokenStream.spells_append.mp hspells.tail
      have hle := he.le
      have hle' := hrest.le
      have hends' : EndsAt stream mid .comma := by
        cases rest with
        | nil =>
            obtain rfl : stop = mid := hrest
            exact ⟨hends.1, Nat.le_trans hends.2 (by decide)⟩
        | cons next rest => exact .of_spells hrest (by simp [Word.mark]) (by decide)
      have hround : Yields stream (sequenceRound (upTo depth) read) c mid nodes
          (fun after outcome => ∃ read', outcome = .inl read' ∧
            ∃ id, read' = id :: read ∧ e.StandsAt after id) := by
        refine .here hspells.kind (.step (advance_eq hspells.lt) ?_)
        refine ((h e (by simp)).yields (by simp) he (by omega) hends').bind
          fun id after _ hid => .pure ⟨_, rfl, id, rfl, hid⟩
      refine hround.round fun read' after _ hread => ?_
      obtain ⟨id, rfl, hid⟩ := hread
      refine (ih (fun e he => h e (List.mem_cons_of_mem _ he)) hrest (by omega) (by omega)
        (id :: read)).mono fun final ids hkept hids => ?_
      obtain ⟨new, rfl, hnew⟩ := hids
      refine ⟨id :: new, by simp, ?_⟩
      rw [ItemsStandAt]
      exact ⟨hid.appends hkept, hnew⟩

theorem readsBack_sequence {first second : Expression} {rest : List Expression}
    (hfirst : first.ReadsBack stream) (hsecond : second.ReadsBack stream)
    (hrest : ∀ e ∈ rest, e.ReadsBack stream) :
    (sequence first second rest).ReadsBack stream := by
  intro depth least power c stop nodes hpower hleast hspells hdepth hends
  have hwords : (sequence first second rest).bare least = first.writeAbove .comma ++
      .mark .comma :: (second.writeAbove .comma ++
        (itemWords rest).flatMap (.mark .comma :: ·)) := rfl
  rw [hwords] at hspells
  have hrank : power.rank < Power.comma.rank := Nat.lt_of_lt_of_le hpower hleast
  refine hfirst.continued hspells hdepth (by omega) (by simp [Word.mark])
    (fun h => le_rightPower_of_lt h (by decide)) hrank
    fun mid firstId after hlt hcomma hfirstId => ?_
  have hitems : ∀ e ∈ second :: rest, e.ReadsBack stream := by
    intro e he
    rcases List.mem_cons.mp he with rfl | he
    · exact hsecond
    · exact hrest e he
  have hitemWords : stream.Spells mid stop
      ((itemWords (second :: rest)).flatMap (.mark .comma :: ·)) := by
    rw [itemWords, List.flatMap_cons]
    exact hcomma
  have hcount := length_le_flatMap (.mark .comma) (itemWords (second :: rest))
  have hrounds : (second :: rest).length < stream.size + 1 := by
    have hstop := hitemWords.stop_eq
    have hsize := hitemWords.stop_lt_size (Nat.lt_of_succ_lt hcomma.lt)
    rw [itemWords_eq_map, List.length_map] at hcount
    rw [itemWords_eq_map] at hstop
    omega
  change Yields stream (Grammar.sequence (upTo depth) firstId) mid stop after _
  rw [sequence_eq]
  refine .step (startOf_eq firstId) ?_
  refine Yields.bind (.loop (yields_sequenceRounds hitems hitemWords (by omega) hends hrounds
    [firstId])) fun ids after' hkept hids => ?_
  obtain ⟨new, rfl, hnew⟩ := hids
  cases new with
  | nil => simp [ItemsStandAt] at hnew
  | cons secondId restIds =>
      rw [ItemsStandAt] at hnew
      refine .push fun span => ?_
      rw [StandsAt]
      exact ⟨firstId, secondId, restIds, by simp, (hfirstId.appends hkept).appends (.push _ _),
        hnew.1.appends (.push _ _), hnew.2.appends (.push _ _)⟩

end Expression

mutual

theorem Place.readsBack : ∀ place : Place, (Expression.place place).ReadsBack stream
  | .identifier name => Expression.readsBack_identifier name
  | .named owner name => Expression.readsBack_named owner.readsBack name
  | .computed owner key => Expression.readsBack_computed owner.readsBack key.readsBack

theorem Expression.readsBack : ∀ e : Expression, e.ReadsBack stream
  | .literal written => Expression.readsBack_literal written
  | .this => Expression.readsBack_this
  | .place place => place.readsBack
  | .array elements => Expression.readsBack_array (readsBack_items elements)
  | .object properties => Expression.readsBack_object (readsBack_properties properties)
  | .unary op argument => Expression.readsBack_unary op argument.readsBack
  | .binary op left right => Expression.readsBack_binary op left.readsBack right.readsBack
  | .logical op left right => Expression.readsBack_logical op left.readsBack right.readsBack
  | .assign op target value => Expression.readsBack_assign op target.readsBack value.readsBack
  | .conditional test consequent alternate =>
      Expression.readsBack_conditional test.readsBack consequent.readsBack alternate.readsBack
  | .call callee arguments => Expression.readsBack_call callee.readsBack (readsBack_items arguments)
  | .construct callee arguments => Expression.readsBack_construct callee.readsBack
        (readsBack_items arguments)
  | .sequence first second rest =>
      Expression.readsBack_sequence first.readsBack second.readsBack (readsBack_items rest)

theorem readsBack_items : ∀ items : List Expression, ∀ e ∈ items, e.ReadsBack stream
  | [] => by simp
  | item :: rest => by
    intro e he
    cases he with
    | head => exact item.readsBack
    | tail _ he => exact readsBack_items rest e he

theorem readsBack_properties : ∀ properties : List (String × Expression),
    ∀ property ∈ properties, property.2.ReadsBack stream
  | [] => by simp
  | (key, value) :: rest => by
    intro property hmem
    cases hmem with
    | head => exact value.readsBack
    | tail _ hmem => exact readsBack_properties rest property hmem

end

end ReadsBack

/-! ## Whole expressions -/

theorem TokenStream.spells_of_toList {stream : TokenStream} {before written after : List Token}
    (h : stream.tokens.toList = before ++ written ++ after) (hafter : after ≠ []) :
    stream.Spells before.length (before.length + written.length) (written.map Token.word) := by
  induction written generalizing before with
  | nil => rfl
  | cons token rest ih =>
      have hsize : stream.tokens.size = before.length + (rest.length + 1) + after.length := by
        rw [← Array.length_toList, h]
        simp only [List.length_append, List.length_cons]
      have hpos := List.length_pos_iff.mpr hafter
      have hlt : before.length < stream.tokens.size := by omega
      refine ⟨by unfold size; omega, ?_, ?_⟩
      · rw [get_of_lt hlt, ← Array.getElem_toList]
        simp [h]
      · have hrest := @ih (before ++ [token]) (by simpa using h)
        rw [List.length_append, List.length_singleton] at hrest
        rwa [List.length_cons, show before.length + (rest.length + 1) =
          before.length + 1 + rest.length by omega]

/-- An expression that is written with parentheses only where the powers ask for them, and
with a semicolon behind it, is read back: exactly its tokens are read, and what they give
stands for the expression. -/
theorem expression_inverts_words (e : Expression) (stream : TokenStream)
    (before written after : List Token) (semicolon : Token) (depth : Nat) (nodes : Array Node)
    (hstream : stream.tokens.toList = before ++ written ++ semicolon :: after)
    (hwritten : written.map Token.word = e.words) (hsemicolon : semicolon.kind = .mark .semicolon)
    (hdepth : written.length ≤ depth) :
    ∃ id nodes', (Grammar.upTo depth).expression .lowest stream ⟨before.length, nodes⟩ =
        .ok (id, ⟨before.length + written.length, nodes'⟩) ∧
      Appends nodes nodes' ∧ e.StandsAt nodes' id := by
  have hspells := TokenStream.spells_of_toList hstream (by simp)
  rw [hwritten] at hspells
  have hnext : stream.get (before.length + written.length) = semicolon := by
    have hlt : before.length + written.length < stream.tokens.size := by
      rw [← Array.length_toList, hstream]
      simp
    rw [TokenStream.get_of_lt hlt, ← Array.getElem_toList]
    simp [hstream]
  have hends : EndsAt stream (before.length + written.length) .lowest := by
    unfold EndsAt
    rw [hnext, hsemicolon]
    decide
  exact e.readsBack.yields (by decide) hspells (by omega) hends

/-- An assignment of a condition whose parts need parentheses, and some that do not. -/
def mixedExpression : Expression :=
  .assign .plain (.identifier "x")
    (.conditional
      (.sequence (.place (.identifier "a"))
        (.binary .pow (.unary .minus (.literal (.number ⟨"1", _, rfl⟩)))
          (.binary .pow (.place (.identifier "b")) (.place (.identifier "c")))) [])
      (.place (.computed
        (.construct (.place (.named (.call (.place (.identifier "f")) []) "g")) [.this])
        (.logical .or (.literal (.string "k")) (.literal .null))))
      (.object [("p", .binary .mul
        (.assign .add (.identifier "q") (.place (.identifier "r"))) (.array []))]))

/-- How the expression is written. -/
def mixedWords : List Word :=
  [.identifier "x", .mark .assign, .mark .openParen, .identifier "a", .mark .comma, .mark .dash,
   ⟨.number, "1"⟩, .mark .starStar, .identifier "b", .mark .starStar, .identifier "c",
   .mark .closeParen, .mark .question, .keyword .new_, .mark .openParen, .identifier "f",
   .mark .openParen, .mark .closeParen, .mark .closeParen, .mark .dot, .identifier "g",
   .mark .openParen, .keyword .this_, .mark .closeParen, .mark .openBracket, .string "k",
   .mark .orElse, .keyword .null_, .mark .closeBracket, .mark .colon, .mark .openCurly,
   .string "p", .mark .colon, .mark .openParen, .identifier "q", .mark .plusEquals,
   .identifier "r", .mark .closeParen, .mark .star, .mark .openBracket, .mark .closeBracket,
   .mark .closeCurly]

/-- The words as tokens, with a semicolon behind them. -/
def mixedTokens : List Token :=
  (mixedWords ++ [Word.mark .semicolon]).map fun word =>
    ⟨word.kind, word.value, .point .nowhere⟩

theorem mixedExpression_read_back :
    mixedExpression.words = mixedWords ∧
      ∃ id nodes, (Grammar.upTo 42).expression .lowest ⟨mixedTokens.toArray, by decide⟩ ⟨0, #[]⟩ =
          .ok (id, ⟨42, nodes⟩) ∧ mixedExpression.StandsAt nodes id := by
  obtain ⟨id, nodes, hrun, -, hstands⟩ := expression_inverts_words mixedExpression
    ⟨mixedTokens.toArray, by decide⟩ [] mixedTokens.dropLast [] (mixedTokens.getLast (by decide)) 42
      #[] (by rfl) (by rfl) (by rfl) (by decide)
  exact ⟨by rfl, id, nodes, hrun, hstands⟩

end ScriptCheck
