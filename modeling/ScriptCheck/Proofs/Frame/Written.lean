import ScriptCheck.Proofs.Frame.Overlay
import ScriptCheck.Proofs.Frame.Trace

/-!
# How often constants are written

A name is written in the frame of its scope and in the guards before it.  What nodes of a
function declare has its scope in that function, so following them writes constants in the
frames of that call only: a lexical chain leaves them where the scopes leave the hoisting
scope.  Each frame has room for as many writes of a constant as there are declarations.
-/

namespace ScriptCheck

open ScopeGraph

def Setting.isWrite : Setting → Bool
  | .bound _ => false
  | .written _ => true

/-- How often a name of a frame was set by a write. -/
def Frame.writes (frame : Frame) (symbol : SymbolId) : Nat :=
  frame.settings.countP fun entry => entry.1 == symbol && entry.2.isWrite

namespace Frame

theorem writes_of_settings {frame : Frame} (hunset : frame.settings = []) (symbol : SymbolId) :
    frame.writes symbol = 0 := by
  rw [writes, hunset]
  rfl

theorem writes_bind (frame : Frame) (symbol : SymbolId) (ty : Ty) (other : SymbolId) :
    (frame.bind symbol ty).writes other = frame.writes other := by
  simp [bind, set, writes, Setting.isWrite]

theorem writes_write (frame : Frame) (symbol : SymbolId) (ty : Ty) (other : SymbolId) :
    (frame.write symbol ty).writes other =
      frame.writes other + if other = symbol then 1 else 0 := by
  simp [write, set, writes, Setting.isWrite, List.countP_cons, eq_comm (a := other)]

end Frame

namespace FrameStore

/-- How often a name was written in a frame. -/
def writes (store : FrameStore) (id : FrameId) (symbol : SymbolId) : Nat :=
  (store.frame id).writes symbol

def sameCall (store : FrameStore) (graph : ScopeGraph) (id : FrameId) : List FrameId :=
  (store.lexicalChain id).filter fun outer =>
    (graph.scope (store.frame id).scope).hoisting ≤ (store.frame outer).scope

/-- Along lexical chains lie scopes further and further out, and in no frame is a constant
written more often than a limit allows. -/
structure Limited (graph : ScopeGraph) (limit : SymbolId → Nat) (store : FrameStore) : Prop where
  outwards : ∀ {id outer}, outer ∈ store.lexicalChain id →
    (store.frame outer).scope ≤ (store.frame id).scope
  writes_le : ∀ id symbol, (graph.symbol symbol).mutable = false →
    store.writes id symbol ≤ limit symbol

/-- The frames of the call of a frame can take so many more writes of constants. -/
def Room (graph : ScopeGraph) (limit : SymbolId → Nat) (store : FrameStore) (id : FrameId)
    (share : SymbolId → Nat) : Prop :=
  ∀ outer ∈ store.sameCall graph id, ∀ symbol, (graph.symbol symbol).mutable = false →
    store.writes outer symbol + share symbol ≤ limit symbol

/-- Between two stores constants were written in the frames of the call of a frame, so often
each, and in no other frames that were there. -/
structure Spends (graph : ScopeGraph) (limit : SymbolId → Nat) (id : FrameId)
    (share : SymbolId → Nat) (store next : FrameStore) : Prop where
  grows : store.Extends next
  limited : next.Limited graph limit
  writes_le : ∀ outer < store.frames.size, ∀ symbol, (graph.symbol symbol).mutable = false →
    next.writes outer symbol ≤ store.writes outer symbol +
      if outer ∈ store.sameCall graph id then share symbol else 0

variable {tree : Tree} {graph : ScopeGraph} {globals : List String} {limit : SymbolId → Nat}
  {store next last : FrameStore} {id : Nat} {share more : SymbolId → Nat}

/-! ## Chains -/

theorem lexicalChain_eq (store : FrameStore) (id : Nat) :
    store.lexicalChain id = [id] ∨ ∃ outer < id, (store.frame id).parentChain = some outer ∧
      store.lexicalChain id = id :: store.lexicalChain outer := by
  cases hparent : (store.frame id).parentChain with
  | none =>
      rw [lexicalChain, hparent]
      exact .inl rfl
  | some outer =>
      by_cases hlt : outer < id
      · exact .inr ⟨outer, hlt, rfl, lexicalChain_of_parentChain hlt hparent⟩
      · rw [lexicalChain, hparent]
        simp [hlt]

/-- What holds between a frame and those around it holds along its chain. -/
theorem pairwise_lexicalChain {R : Nat → Nat → Prop}
    (holds : ∀ {id outer : Nat}, outer ∈ store.lexicalChain id → outer ≠ id → R id outer)
    (id : Nat) : (store.lexicalChain id).Pairwise R := by
  induction id using Nat.strongRecOn with
  | ind id ih =>
      rcases store.lexicalChain_eq id with hchain | ⟨outer, hlt, -, hchain⟩
      · rw [hchain]
        exact List.pairwise_singleton _ _
      · have hfirst : ∀ further ∈ store.lexicalChain outer, R id further := by
          intro further hmem
          have hbelow := mem_lexicalChain_le hmem
          exact holds (hchain ▸ List.mem_cons_of_mem id hmem) (by omega)
        rw [hchain]
        exact List.pairwise_cons.mpr ⟨hfirst, ih outer hlt⟩

theorem nodup_lexicalChain (store : FrameStore) (id : Nat) : (store.lexicalChain id).Nodup :=
  pairwise_lexicalChain (fun _ hdiffer => hdiffer.symm) id

theorem Extends.lexicalChain (h : store.Extends next) {id : Nat} (hlt : id < store.frames.size) :
    next.lexicalChain id = store.lexicalChain id := by
  induction id using Nat.strongRecOn with
  | ind id ih =>
      rw [FrameStore.lexicalChain, h.parentChain hlt, FrameStore.lexicalChain]
      split
      · rfl
      · split
        case isTrue hbelow => rw [ih _ hbelow (Nat.lt_trans hbelow hlt)]
        case isFalse => rfl

theorem Extends.sameCall (h : store.Extends next) {id : Nat} (hlt : id < store.frames.size) :
    next.sameCall graph id = store.sameCall graph id := by
  unfold FrameStore.sameCall
  rw [h.lexicalChain hlt, h.scope hlt]
  refine List.filter_congr fun outer hmem => ?_
  rw [h.scope (Nat.lt_of_le_of_lt (mem_lexicalChain_le hmem) hlt)]

/-! ## Writing along a chain -/

theorem mem_of_mem_wayAlong {scope : ScopeId} {symbol : SymbolId} {chain : List FrameId}
    {outer : FrameId} (hmem : outer ∈ store.wayAlong scope symbol chain) : outer ∈ chain := by
  induction chain with
  | nil => cases hmem
  | cons first rest ih =>
      rw [wayAlong] at hmem
      split at hmem
      · simp_all
      · rcases List.mem_cons.mp hmem with rfl | hmem
        · exact List.mem_cons_self
        · exact List.mem_cons_of_mem first (ih hmem)

/-- The way of a write does not lead further out than to a frame where it can end. -/
theorem scope_le_of_mem_wayAlong {scope : ScopeId} {symbol : SymbolId} {chain : List FrameId}
    (hdescends : chain.Pairwise fun inner outer =>
      (store.frame outer).scope ≤ (store.frame inner).scope)
    {place : FrameId} (hmem : place ∈ chain) (hends : store.endsIn scope symbol place)
    {outer : FrameId} (honWay : outer ∈ store.wayAlong scope symbol chain) :
    (store.frame place).scope ≤ (store.frame outer).scope := by
  induction chain with
  | nil => cases hmem
  | cons first rest ih =>
      obtain ⟨hbelow, hdescends⟩ := List.pairwise_cons.mp hdescends
      rw [wayAlong] at honWay
      by_cases hstops : store.endsIn scope symbol first
      · rw [if_pos hstops, List.mem_singleton] at honWay
        subst honWay
        rcases List.mem_cons.mp hmem with rfl | hmem
        · exact Nat.le_refl _
        · exact hbelow place hmem
      · have hlater : place ∈ rest := by
          rcases List.mem_cons.mp hmem with rfl | hmem
          · exact absurd hends hstops
          · exact hmem
        rw [if_neg hstops] at honWay
        rcases List.mem_cons.mp honWay with rfl | honWay
        · exact hbelow place hlater
        · exact ih hdescends hlater honWay

theorem writes_modify_write (store : FrameStore) (first id : FrameId) (symbol other : SymbolId)
    (ty : Ty) : (store.modify first (·.write symbol ty)).writes id other ≤
      store.writes id other + if other = symbol ∧ id = first then 1 else 0 := by
  unfold writes
  rw [frame_modify]
  split
  case isTrue hchanged => simp [Frame.writes_write, hchanged.1]
  case isFalse => exact Nat.le_add_right _ _

/-- A write adds one to the writes of its name, in the frames on its way. -/
theorem writes_writeAlong (store : FrameStore) (scope : ScopeId) (symbol : SymbolId) (ty : Ty)
    {chain : List FrameId} (hdistinct : chain.Nodup) (id : FrameId) (other : SymbolId) :
    ((FrameM.writeAlong scope symbol ty chain).run store).2.writes id other ≤
      store.writes id other +
        if other = symbol ∧ id ∈ store.wayAlong scope symbol chain then 1 else 0 := by
  induction chain generalizing store with
  | nil => exact Nat.le_add_right _ _
  | cons first rest ih =>
      obtain ⟨habsent, hdistinct⟩ := List.nodup_cons.mp hdistinct
      have here := writes_modify_write store first id symbol other ty
      rw [FrameM.writeAlong_cons_run, wayAlong, endsIn]
      split
      case isFalse hnoPlace =>
        have hbeyond := ih store hdistinct
        simp only [hnoPlace, Bool.false_and, Bool.false_eq_true, if_false, List.mem_cons]
        grind
      case isTrue hplace =>
        cases hoverlay : (store.frame first).overlay with
        | false => simpa [hplace] using here
        | true =>
            have hbeyond := ih (store.modify first (·.write symbol ty)) hdistinct
            rw [wayAlong_congr (endsIn_modify_write hoverlay scope symbol ty)] at hbeyond
            have hapart : id = first → id ∉ store.wayAlong scope symbol rest := by
              rintro rfl hmem
              exact habsent (mem_of_mem_wayAlong hmem)
            simp only [if_true, hplace, Bool.not_true, Bool.and_false, Bool.false_eq_true, if_false,
              List.mem_cons]
            grind

/-! ## Changes of frames that are there -/

theorem lexicalChain_of_size_le {id : Nat} (hout : store.frames.size ≤ id) :
    store.lexicalChain id = [id] := by
  rw [lexicalChain, frame_of_size_le hout]
  rfl

/-- Frames that change but in what is bound and written keep their scopes in order. -/
theorem Limited.of_extends (h : store.Limited graph limit) (hgrows : store.Extends next)
    (hsize : next.frames.size = store.frames.size)
    (hwrites_le : ∀ id symbol, (graph.symbol symbol).mutable = false →
      next.writes id symbol ≤ limit symbol) : next.Limited graph limit where
  writes_le := hwrites_le
  outwards {id outer} hmem := by
    by_cases hlt : id < store.frames.size
    · rw [hgrows.lexicalChain hlt] at hmem
      have houterLt := Nat.lt_of_le_of_lt (mem_lexicalChain_le hmem) hlt
      rw [hgrows.scope hlt, hgrows.scope houterLt]
      exact h.outwards hmem
    · have hout : next.frames.size ≤ id := hsize ▸ Nat.le_of_not_lt hlt
      rw [lexicalChain_of_size_le hout, List.mem_singleton] at hmem
      exact hmem ▸ Nat.le_refl _

/-- Nothing was written where frames change in other ways. -/
theorem Limited.spends (h : store.Limited graph limit) (hgrows : store.Extends next)
    (hsize : next.frames.size = store.frames.size)
    (hsame : ∀ outer symbol, next.writes outer symbol = store.writes outer symbol) (id : FrameId)
    (share : SymbolId → Nat) : Spends graph limit id share store next := by
  have hlimited := h.of_extends hgrows hsize fun outer symbol hconst => by
    rw [hsame]
    exact h.writes_le outer symbol hconst
  exact ⟨hgrows, hlimited, fun outer _ symbol _ => by simp [hsame]⟩

theorem Limited.refl_spends (h : store.Limited graph limit) (id : FrameId)
    (share : SymbolId → Nat) : Spends graph limit id share store store :=
  h.spends (.refl store) rfl (fun _ _ => rfl) id share

theorem Limited.spends_modify (h : store.Limited graph limit) (current : FrameId)
    {f : Frame → Frame} (houtline : ∀ frame, (f frame).outline = frame.outline)
    (holds : ∀ frame symbol, frame.holds symbol → (f frame).holds symbol)
    (hsame : ∀ frame symbol, (f frame).writes symbol = frame.writes symbol) (id : FrameId)
    (share : SymbolId → Nat) : Spends graph limit id share store (store.modify current f) := by
  refine h.spends (extends_modify store current houtline holds) (size_modify _ _ _) ?_ id share
  intro other symbol
  rw [writes, frame_modify]
  split
  · exact hsame _ symbol
  · rfl

theorem Spends.mono (h : Spends graph limit id share store next)
    (hle : ∀ symbol, share symbol ≤ more symbol) : Spends graph limit id more store next where
  grows := h.grows
  limited := h.limited
  writes_le outer hlt symbol hconst := by
    have hspent := h.writes_le outer hlt symbol hconst
    refine Nat.le_trans hspent (Nat.add_le_add_left ?_ _)
    split
    · exact hle symbol
    · exact Nat.le_refl 0

theorem Spends.trans (hlt : id < store.frames.size) (h : Spends graph limit id share store next)
    (hrest : Spends graph limit id more next last) :
    Spends graph limit id (fun symbol => share symbol + more symbol) store last where
  grows := h.grows.trans hrest.grows
  limited := hrest.limited
  writes_le outer houterLt symbol hconst := by
    have hfirst := h.writes_le outer houterLt symbol hconst
    have hsecond := hrest.writes_le outer (Nat.lt_of_lt_of_le houterLt h.grows.size_le)
      symbol hconst
    rw [h.grows.sameCall hlt] at hsecond
    split at hfirst <;> simp_all <;> omega

/-- What is left of the room after some writes. -/
theorem Room.left (hroom : store.Room graph limit id fun symbol => share symbol + more symbol)
    (hlt : id < store.frames.size) (h : Spends graph limit id share store next) :
    next.Room graph limit id more := by
  intro outer hmem symbol hconst
  rw [h.grows.sameCall hlt] at hmem
  have houterLt := Nat.lt_of_le_of_lt (mem_lexicalChain_le (List.mem_filter.mp hmem).1) hlt
  have hspent := h.writes_le outer houterLt symbol hconst
  have hbefore : store.writes outer symbol + (share symbol + more symbol) ≤ limit symbol :=
    hroom outer hmem symbol hconst
  rw [if_pos hmem] at hspent
  omega

theorem Room.mono (hroom : store.Room graph limit id more)
    (hle : ∀ symbol, share symbol ≤ more symbol) : store.Room graph limit id share :=
  fun outer hmem symbol hconst => Nat.le_trans (Nat.add_le_add_left (hle symbol) _)
    (hroom outer hmem symbol hconst)

/-! ## New frames -/

theorem size_add (store : FrameStore) (frame : Frame) :
    (store.add frame).frames.size = store.frames.size + 1 := by
  simp [add]

theorem writes_add {frame : Frame} (hunset : frame.settings = []) {outer : Nat}
    (hlt : outer < store.frames.size + 1) (symbol : SymbolId) :
    (store.add frame).writes outer symbol = store.writes outer symbol := by
  unfold writes
  rcases Nat.lt_or_eq_of_le (Nat.le_of_lt_succ hlt) with hlt | rfl
  · rw [frame_add_of_lt hlt]
  · rw [frame_add_self, frame_of_size_le (Nat.le_refl _), Frame.writes_of_settings hunset]
    rfl

theorem writes_add_self {frame : Frame} (hunset : frame.settings = []) (symbol : SymbolId) :
    (store.add frame).writes store.frames.size symbol = 0 := by
  rw [writes, frame_add_self, Frame.writes_of_settings hunset]

/-- A frame that is entered further inside keeps the scopes in order. -/
theorem Limited.add (h : store.Limited graph limit) {frame : Frame}
    (hunset : frame.settings = [])
    (hinside : ∀ outer < store.frames.size, frame.parentChain = some outer →
      (store.frame outer).scope ≤ frame.scope) : (store.add frame).Limited graph limit where
  writes_le id symbol hconst := by
    by_cases hlt : id < store.frames.size + 1
    · rw [writes_add hunset hlt]
      exact h.writes_le id symbol hconst
    · have hout : (store.add frame).frames.size ≤ id := by
        rw [size_add]
        exact Nat.le_of_not_lt hlt
      rw [writes, frame_of_size_le hout]
      exact Nat.zero_le _
  outwards {id outer} hmem := by
    have hgrows := extends_add store frame
    rcases Nat.lt_trichotomy id store.frames.size with hlt | rfl | hgt
    · rw [hgrows.lexicalChain hlt] at hmem
      rw [hgrows.scope hlt, hgrows.scope (Nat.lt_of_le_of_lt (mem_lexicalChain_le hmem) hlt)]
      exact h.outwards hmem
    · rcases (store.add frame).lexicalChain_eq store.frames.size with
        hchain | ⟨around, hlt, hparent, hchain⟩
      · rw [hchain, List.mem_singleton] at hmem
        exact hmem ▸ Nat.le_refl _
      · rw [frame_add_self] at hparent ⊢
        rw [hchain] at hmem
        rcases List.mem_cons.mp hmem with rfl | hmem
        · exact Nat.le_of_eq (by rw [frame_add_self])
        · rw [hgrows.lexicalChain hlt] at hmem
          rw [hgrows.scope (Nat.lt_of_le_of_lt (mem_lexicalChain_le hmem) hlt)]
          exact Nat.le_trans (h.outwards hmem) (hinside around hlt hparent)
    · rw [lexicalChain_of_size_le (by rw [size_add]; exact hgt), List.mem_singleton] at hmem
      exact hmem ▸ Nat.le_refl _

/-- The frames of the call of a new frame: itself, and those along the chain that it continues. -/
theorem mem_sameCall_add {frame : Frame} {outer : Nat}
    (hmem : outer ∈ (store.add frame).sameCall graph store.frames.size) :
    outer = store.frames.size ∨ ∃ around < store.frames.size, frame.parentChain = some around ∧
      outer ∈ store.lexicalChain around ∧
        (graph.scope frame.scope).hoisting ≤ (store.frame outer).scope := by
  have hgrows := extends_add store frame
  unfold sameCall at hmem
  rw [List.mem_filter, decide_eq_true_iff, frame_add_self] at hmem
  obtain ⟨hmem, hinside⟩ := hmem
  rcases (store.add frame).lexicalChain_eq store.frames.size with
    hchain | ⟨around, hlt, hparent, hchain⟩
  · exact .inl (List.mem_singleton.mp (hchain ▸ hmem))
  · rw [hchain, hgrows.lexicalChain hlt] at hmem
    rw [frame_add_self] at hparent
    rcases List.mem_cons.mp hmem with hsame | hmem
    · exact .inl hsame
    · rw [hgrows.scope (Nat.lt_of_le_of_lt (mem_lexicalChain_le hmem) hlt)] at hinside
      exact .inr ⟨around, hlt, hparent, hmem, hinside⟩

theorem mem_sameCall_of_inside {frame : Frame} (hparent : frame.parentChain = some id)
    (hoisting : (graph.scope (store.frame id).scope).hoisting ≤ (graph.scope frame.scope).hoisting)
    {outer : Nat} (hmem : outer ∈ (store.add frame).sameCall graph store.frames.size) :
    outer = store.frames.size ∨ outer ∈ store.sameCall graph id := by
  refine (mem_sameCall_add hmem).imp_right fun ⟨around, _, hown, hmem, hinside⟩ => ?_
  rw [hparent] at hown
  cases hown
  exact List.mem_filter.mpr ⟨hmem, decide_eq_true (Nat.le_trans hoisting hinside)⟩

/-- A new frame of a hoisting scope inside the scope where its chain goes on begins a call. -/
theorem Limited.eq_of_mem_sameCall (h : store.Limited graph limit) {frame : Frame}
    (hbeyond : ∀ around < store.frames.size, frame.parentChain = some around →
      (store.frame around).scope < (graph.scope frame.scope).hoisting)
    {outer : Nat} (hmem : outer ∈ (store.add frame).sameCall graph store.frames.size) :
    outer = store.frames.size := by
  refine (mem_sameCall_add hmem).elim id fun ⟨around, hlt, hparent, hmem, hinside⟩ => ?_
  have houtwards := h.outwards hmem
  have hdeeper := hbeyond around hlt hparent
  exact absurd (Nat.le_trans hinside houtwards) (Nat.not_le_of_lt hdeeper)

/-- What is written from a new frame on is written in the call of an old one, if the call of
the new one is the same or has no frames that were there. -/
theorem Spends.of_add {frame : Frame} (hunset : frame.settings = [])
    (hamong : ∀ outer < store.frames.size,
      outer ∈ (store.add frame).sameCall graph store.frames.size →
        outer ∈ store.sameCall graph id ∧ ∀ symbol, share symbol ≤ more symbol)
    (h : Spends graph limit store.frames.size share (store.add frame) last) :
    Spends graph limit id more store last where
  grows := (extends_add store frame).trans h.grows
  limited := h.limited
  writes_le outer hlt symbol hconst := by
    have hlater := Nat.lt_succ_of_lt hlt
    have hspent := h.writes_le outer (by rwa [size_add]) symbol hconst
    rw [writes_add hunset hlater] at hspent
    refine Nat.le_trans hspent (Nat.add_le_add_left ?_ _)
    split
    case isTrue hmem =>
      obtain ⟨hsame, hle⟩ := hamong outer hlt hmem
      rw [if_pos hsame]
      exact hle symbol
    case isFalse => exact Nat.zero_le _

theorem Room.add {frame : Frame} (hunset : frame.settings = [])
    (hamong : ∀ outer ∈ (store.add frame).sameCall graph store.frames.size,
      outer = store.frames.size ∨ outer ∈ store.sameCall graph id)
    (hlt : id < store.frames.size) (hroom : store.Room graph limit id share)
    (hle : ∀ symbol, share symbol ≤ limit symbol) :
    (store.add frame).Room graph limit store.frames.size share := by
  intro outer hmem symbol hconst
  rcases hamong outer hmem with rfl | hmem
  · rw [writes_add_self hunset, Nat.zero_add]
    exact hle symbol
  · have houterLt := Nat.lt_of_le_of_lt (mem_lexicalChain_le (List.mem_filter.mp hmem).1) hlt
    rw [writes_add hunset (Nat.lt_succ_of_lt houterLt)]
    exact hroom outer hmem symbol hconst

/-! ## Writing a name -/

theorem exists_place_of_mem_chainScopes {scope : Nat} (hmem : scope ∈ store.chainScopes id) :
    ∃ place ∈ store.lexicalChain id, (store.frame place).overlay = false ∧
      (store.frame place).scope = scope := by
  obtain ⟨place, hfound, hscope⟩ := List.mem_map.mp hmem
  obtain ⟨hmem, hplain⟩ := List.mem_filter.mp hfound
  exact ⟨place, hmem, by simpa using hplain, hscope⟩

theorem Extends.chainScopes (h : store.Extends next) (hlt : id < store.frames.size) :
    next.chainScopes id = store.chainScopes id := by
  have hbelow : ∀ outer ∈ store.lexicalChain id, outer < store.frames.size :=
    fun outer hmem => Nat.lt_of_le_of_lt (mem_lexicalChain_le hmem) hlt
  unfold FrameStore.chainScopes
  rw [h.lexicalChain hlt, List.filter_congr fun outer hmem => by rw [h.overlay (hbelow outer hmem)]]
  exact List.map_congr_left fun outer hmem => h.scope (hbelow outer (List.mem_filter.mp hmem).1)

/-- Writing a constant of a scope of the call, where there is room for one more write. -/
theorem Limited.spends_writeName (h : store.Limited graph limit) (tree : Tree) (place : NodeId)
    {symbol : SymbolId} (ty : Ty) (hroom : store.Room graph limit id share)
    (hdeclared : (graph.symbol symbol).mutable = false → 1 ≤ share symbol ∧
      (graph.scope (store.frame id).scope).hoisting ≤ (graph.symbol symbol).scope ∧
        (graph.symbol symbol).scope ∈ store.chainScopes id) :
    Spends graph limit id share store
      ((FrameM.writeName tree graph id place symbol ty).run store).2 := by
  rw [FrameM.writeName_run_snd]
  obtain ⟨found, next, hrun, hgrows, hsize, -⟩ :=
    FrameM.run_writeAlong (graph.symbol symbol).scope symbol ty (store.lexicalChain id) store
  have hcounted := store.writes_writeAlong (graph.symbol symbol).scope symbol ty
    (store.nodup_lexicalChain id)
  rw [hrun] at hcounted ⊢
  have hspent : ∀ outer other, (graph.symbol other).mutable = false →
      next.writes outer other ≤ store.writes outer other +
        if outer ∈ store.sameCall graph id then share other else 0 := by
    intro outer other hconst
    refine Nat.le_trans (hcounted outer other) (Nat.add_le_add_left ?_ _)
    split
    case isFalse => exact Nat.zero_le _
    case isTrue hwritten =>
      obtain ⟨rfl, honWay⟩ := hwritten
      obtain ⟨honce, hoisting, haround⟩ := hdeclared hconst
      obtain ⟨owner, hmem, hplain, hscope⟩ := exists_place_of_mem_chainScopes haround
      have hends : store.endsIn (graph.symbol other).scope other owner := by
        simp [endsIn, Frame.owns, hplain, hscope]
      have hfurther := scope_le_of_mem_wayAlong
        (pairwise_lexicalChain (fun hmem _ => h.outwards hmem) id) hmem hends honWay
      rw [hscope] at hfurther
      have hinCall : outer ∈ store.sameCall graph id := List.mem_filter.mpr
        ⟨mem_of_mem_wayAlong honWay, decide_eq_true (Nat.le_trans hoisting hfurther)⟩
      rwa [if_pos hinCall]
  have hlimited := h.of_extends hgrows hsize fun outer other hconst => by
    refine Nat.le_trans (hspent outer other hconst) ?_
    split
    case isTrue hmem => exact hroom outer hmem other hconst
    case isFalse => exact h.writes_le outer other hconst
  exact ⟨hgrows, hlimited, fun outer _ => hspent outer⟩

end FrameStore

def Frame.ofCall (graph : ScopeGraph) (current : FrameId) (site callee : NodeId)
    (origin : FrameId) : Frame where
  node := callee
  scope := graph.scopeOf callee
  parentFrame := some current
  parentChain := some origin
  caller := some site

/-- The frame of a call is entered where the scope of the function is further inside. -/
theorem FrameM.run_enterCallee (tree : Tree) (graph : ScopeGraph) (current : FrameId)
    (site callee : NodeId) (origin : FrameId) (store : FrameStore) :
    (∃ fault, (enterCallee tree graph current site callee origin).run store =
        (.error fault, store)) ∨
      (store.frame origin).scope < graph.scopeOf callee ∧
        (enterCallee tree graph current site callee origin).run store =
          (.ok store.frames.size, store.add (.ofCall graph current site callee origin)) := by
  have hrun : (enterCallee tree graph current site callee origin).run store =
      (if graph.scopeOf callee ≤ (store.frame origin).scope then throw _
        else enter (.ofCall graph current site callee origin) : FrameM FrameId).run store := rfl
  rw [hrun]
  split
  · exact .inl ⟨_, rfl⟩
  · exact .inr ⟨Nat.lt_of_not_le ‹_›, rfl⟩

end ScriptCheck
