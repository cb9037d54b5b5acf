import Rsx.Risk.Operations

/-!
# Liquidation rounds under backpressure

`maybe_process` advances every due entry before the rings are asked for room.  A tick that finds a
ring full between two orders returns, and the rounds it did not send are gone.
-/

namespace Rsx.Risk

open Book List

namespace LiquidationEngine

variable {nowNs : Nat} {position : Nat → Nat → Int} {markPrice : Nat → Int}
  {l : LiquidationEngine}

/-- The entries after a pass that carried out `count` of the due orders and no loss: all other
orders and all losses stay due. -/
def carryOut (l : LiquidationEngine) (nowNs : Nat) (position : Nat → Nat → Int)
    (markPrice : Nat → Int) : Nat → List LiquidationState → List LiquidationState
  | _, [] => []
  | count, state :: states =>
    match l.processEntry nowNs position markPrice state, count with
    | (next, .none), count => next :: l.carryOut nowNs position markPrice count states
    | (_, .socialized _), count => state :: l.carryOut nowNs position markPrice count states
    | (_, .order _), 0 => state :: l.carryOut nowNs position markPrice 0 states
    | (next, .order _), count + 1 => next :: l.carryOut nowNs position markPrice count states

theorem processEntry_order {state next : LiquidationState}
    {order : LiquidationOrder}
    (h : l.processEntry nowNs position markPrice state = (next, .order order)) : next ≠ state := by
  unfold processEntry at h
  dsimp only at h
  split_ifs at h <;> cases h
  all_goals
    intro hsame
    have hround := congrArg LiquidationState.round hsame
    dsimp only at hround
    omega

theorem map_processEntry_ne_carryOut {states : List LiquidationState}
    {count : Nat}
    (h : count < ((states.map (l.processEntry nowNs position markPrice)).filterMap
      (·.2.order?)).length) :
    (states.map (l.processEntry nowNs position markPrice)).map Prod.fst ≠
      l.carryOut nowNs position markPrice count states := by
  induction states generalizing count with
  | nil => exact absurd h (Nat.not_lt_zero _)
  | cons state states ih =>
    unfold carryOut
    rw [map_cons]
    rw [map_cons] at h
    intro hsame
    rcases hturn : l.processEntry nowNs position markPrice state with ⟨_, step⟩
    rw [hturn] at h hsame
    cases step with
    | none | socialized => exact ih h (List.cons.inj hsame).2
    | order =>
      cases count with
      | zero => exact processEntry_order hturn (List.cons.inj hsame).1
      | succ => exact ih (Nat.lt_of_succ_lt_succ h) (List.cons.inj hsame).2

end LiquidationEngine

/-! ## Room in the rings -/

def Ring.room {α : Type} (ring : Ring α) : Nat :=
  ring.capacity - ring.items.length

def ShardRings.room (rings : ShardRings) : Nat :=
  min rings.me.room rings.response.room

theorem Ring.isFull_iff {α : Type} (ring : Ring α) : ring.isFull ↔ ring.room = 0 := by
  rw [isFull, decide_eq_true_iff, room, Nat.sub_eq_zero_iff_le]

theorem ShardRings.anyFull_iff (rings : ShardRings) : rings.anyFull ↔ rings.room = 0 := by
  rw [anyFull, Bool.or_eq_true, Ring.isFull_iff, Ring.isFull_iff, room]
  omega

namespace Shard

variable {s s' : Shard} {rings : ShardRings} {nowSecs : Nat} {ids : Nat → OrderId}

theorem room_drainCancels (frozenOrders : OrderId → Option Freeze) (cancels : List CancelRequest)
    (me : Ring MeCommand) :
    (drainCancels frozenOrders cancels me).2.room =
      me.room - (cancels.filter fun cancel => (frozenOrders cancel.orderId).isSome).length := by
  induction cancels generalizing me with
  | nil => rfl
  | cons cancel cancels ih =>
    unfold drainCancels
    by_cases hfull : me.isFull
    · rw [if_pos hfull]
      have hroom := me.isFull_iff.1 hfull
      dsimp only
      omega
    · rw [if_neg hfull]
      rcases hfrozen : frozenOrders cancel.orderId with - | frozen
      · rw [filter_cons_of_neg (by rw [hfrozen]; nofun)]
        exact ih me
      · rw [if_neg nofun, filter_cons_of_pos (by rw [hfrozen]; rfl), ih, Ring.room, Ring.room,
          length_cons]
        dsimp only
        rw [length_append, length_singleton]
        omega

/-! ## Which liquidation orders pass the shard's own check -/

/-- A liquidation order that `process_order` accepts. -/
def Placeable (s : Shard) (liq : LiquidationOrder) : Prop :=
  s.userInShard liq.userId ∧ 0 < roundToTick liq.price (s.tickSize liq.symbolId) liq.side ∧
    0 < liq.qty ∧ liq.symbolId < s.maxSymbols
  deriving Decidable

theorem processOrder_frame (s : Shard) (order : OrderRequest) :
    ∃ accounts prices dirty frozenOrders frozenByUser, (s.processOrder order).1 =
      { s with
        accounts := accounts, fallbackMarkPrices := prices, markDirty := dirty
        frozenOrders := frozenOrders, frozenByUser := frozenByUser } := by
  by_cases hvalid : s.userInShard order.userId ∧ 0 < order.price ∧ 0 < order.qty
  · obtain ⟨prices, dirty, hchecked⟩ := s.checked_frame order.userId
    rw [processOrder_eq hvalid.1 hvalid.2.1 hvalid.2.2]
    dsimp only
    split
    · exact ⟨_, prices, dirty, s.frozenOrders, s.frozenByUser, hchecked⟩
    · split
      · exact ⟨_, prices, dirty, s.frozenOrders, s.frozenByUser, hchecked⟩
      · split
        · rw [hchecked]
          exact ⟨_, prices, dirty, _, _, rfl⟩
        · exact ⟨_, prices, dirty, s.frozenOrders, s.frozenByUser, hchecked⟩
  · rw [processOrder_invalid hvalid]
    exact ⟨s.accounts, s.fallbackMarkPrices, s.markDirty, s.frozenOrders, s.frozenByUser, rfl⟩

theorem placeable_processOrder (s : Shard) (order : OrderRequest) (liq : LiquidationOrder) :
    (s.processOrder order).1.Placeable liq ↔ s.Placeable liq := by
  obtain ⟨_, _, _, _, _, hframe⟩ := s.processOrder_frame order
  rw [hframe]
  rfl

theorem processOrder_liq (s : Shard) (liq : LiquidationOrder) (orderId : OrderId) (nowNs : Nat) :
    let answer := (s.processOrder (s.liqToOrder liq orderId nowNs)).2
    if s.Placeable liq then answer = .accepted liq.userId 0 orderId
    else ∃ reason, answer = .rejected liq.userId reason orderId := by
  set order := s.liqToOrder liq orderId nowNs
  by_cases hvalid : s.userInShard liq.userId ∧
      0 < roundToTick liq.price (s.tickSize liq.symbolId) liq.side ∧ 0 < liq.qty
  · have heq : s.processOrder order = _ := processOrder_eq hvalid.1 hvalid.2.1 hvalid.2.2
    obtain ⟨prices, _, hchecked⟩ := s.checked_frame order.userId
    have hsymbols : (s.checked order.userId).maxSymbols = s.maxSymbols := by rw [hchecked]
    have hliq : order.isLiquidation := rfl
    rw [if_neg fun hneeds => hneeds.2 hliq, hsymbols] at heq
    by_cases hsymbol : order.symbolId < s.maxSymbols
    · rw [if_neg (not_le.2 hsymbol)] at heq
      rw [if_pos ⟨hvalid.1, hvalid.2.1, hvalid.2.2, hsymbol⟩, heq]
      rfl
    · rw [if_pos (not_lt.1 hsymbol)] at heq
      rw [if_neg fun hplace => hsymbol hplace.2.2.2, heq]
      exact ⟨_, rfl⟩
  · have hplace : ¬ s.Placeable liq := fun h => hvalid ⟨h.1, h.2.1, h.2.2.1⟩
    rw [if_neg hplace, @processOrder_invalid s order hvalid]
    exact ⟨_, rfl⟩

/-! ## Where the loop stops -/

def placeOne (orderId : OrderId) (nowNs : Nat) (liq : LiquidationOrder) (s : Shard)
    (rings : ShardRings) : Shard × ShardRings :=
  let order := s.liqToOrder liq orderId nowNs
  match s.processOrder order with
  | (s', .accepted ..) =>
    (s',
      { me := { rings.me with items := rings.me.items ++ [.order order] }
        response :=
          { rings.response with
            items := rings.response.items ++ [.liquidation liq.userId liq.symbolId 0 liq.round
              liq.side liq.qty order.price liq.slipBps] } })
  | (s', _) => (s', rings)

theorem placeOrders_cons (ids : Nat → OrderId) (nowNs : Nat) (liq : LiquidationOrder)
    (rest : List LiquidationOrder) (s : Shard) (rings : ShardRings) :
    placeOrders ids nowNs (liq :: rest) s rings =
      if rings.anyFull then (s, rings, false)
      else
        let turn := placeOne (ids rest.length) nowNs liq s rings
        placeOrders ids nowNs rest turn.1 turn.2 := by
  rw [placeOrders, placeOne]
  dsimp only
  rcases s.processOrder (s.liqToOrder liq (ids rest.length) nowNs) with ⟨_, answer⟩
  cases answer <;> rfl

theorem placeOne_fst (orderId : OrderId) (nowNs : Nat) (liq : LiquidationOrder) (s : Shard)
    (rings : ShardRings) : (placeOne orderId nowNs liq s rings).1 =
      (s.processOrder (s.liqToOrder liq orderId nowNs)).1 := by
  unfold placeOne
  dsimp only
  rcases s.processOrder (s.liqToOrder liq orderId nowNs) with ⟨_, answer⟩
  cases answer <;> rfl

theorem room_placeOne (orderId : OrderId) (nowNs : Nat) (liq : LiquidationOrder) (s : Shard)
    (rings : ShardRings) : (placeOne orderId nowNs liq s rings).2.room =
      rings.room - if s.Placeable liq then 1 else 0 := by
  have hanswer := s.processOrder_liq liq orderId nowNs
  unfold placeOne
  dsimp only at hanswer ⊢
  rcases hprocess : s.processOrder (s.liqToOrder liq orderId nowNs) with ⟨_, _⟩
  rw [hprocess] at hanswer
  by_cases hplace : s.Placeable liq
  · rw [if_pos hplace] at hanswer ⊢
    cases hanswer
    dsimp only [ShardRings.room, Ring.room]
    rw [length_append, length_append, length_singleton, length_singleton]
    omega
  · rw [if_neg hplace] at hanswer ⊢
    obtain ⟨_, hreject⟩ := hanswer
    cases hreject
    rfl

/-- The orders `tick` turned to before a full ring stopped it. -/
def turnedTo (ids : Nat → OrderId) (nowNs : Nat) : List LiquidationOrder → Shard → ShardRings → Nat
  | [], _, _ => 0
  | liq :: rest, s, rings =>
    if rings.anyFull then 0
    else
      let turn := placeOne (ids rest.length) nowNs liq s rings
      turnedTo ids nowNs rest turn.1 turn.2 + 1

def placedBeforeLast (s : Shard) (orders : List LiquidationOrder) : Nat :=
  (orders.dropLast.filter fun liq => s.Placeable liq).length

theorem placeOrders_completes (ids : Nat → OrderId) (nowNs : Nat) (orders : List LiquidationOrder)
    (s : Shard) (rings : ShardRings) :
    (placeOrders ids nowNs orders s rings).2.2 = true ↔
      orders = [] ∨ s.placedBeforeLast orders < rings.room := by
  induction orders generalizing s rings with
  | nil => exact iff_of_true rfl (.inl rfl)
  | cons liq rest ih =>
    rw [placeOrders_cons]
    by_cases hfull : rings.anyFull
    · have hroom := rings.anyFull_iff.1 hfull
      rw [if_pos hfull, hroom]
      exact iff_of_false nofun fun h => h.elim nofun (Nat.not_lt_zero _)
    · have hroom := mt rings.anyFull_iff.2 hfull
      rw [if_neg hfull]
      rw [ih, room_placeOne, placeOne_fst]
      have hsame : ∀ other, (s.processOrder (s.liqToOrder liq (ids rest.length) nowNs)).1.Placeable
          other ↔ s.Placeable other := s.placeable_processOrder _
      cases rest with
      | nil => exact iff_of_true (.inl rfl) (.inr (Nat.pos_of_ne_zero hroom))
      | cons =>
        unfold placedBeforeLast
        simp only [hsame, dropLast_cons_cons, filter_cons, decide_eq_true_eq, reduceCtorEq,
          false_or]
        by_cases hplace : s.Placeable liq
        · rw [if_pos hplace, if_pos hplace, length_cons]
          omega
        · rw [if_neg hplace, if_neg hplace]
          omega

theorem turnedTo_lt {orders : List LiquidationOrder}
    (h : (placeOrders ids nowNs orders s rings).2.2 = false) :
    turnedTo ids nowNs orders s rings < orders.length := by
  induction orders generalizing s rings with
  | nil => cases h
  | cons liq rest ih =>
    rw [placeOrders_cons] at h
    unfold turnedTo
    split_ifs at h ⊢ with hfull
    · exact Nat.succ_pos _
    · exact Nat.succ_lt_succ (ih h)

/-! ## What a stopped tick owes -/

def prepared (s : Shard) : Shard :=
  s.drainConfigUpdates.freshPrices

def dueOrders (s : Shard) (nowSecs : Nat) : List LiquidationOrder :=
  (s.prepared.dueSteps (nowSecs * 1000000000)).2.1

def dueLosses (s : Shard) (nowSecs : Nat) : List SocializedLoss :=
  (s.prepared.dueSteps (nowSecs * 1000000000)).2.2

def ready (s : Shard) (rings : ShardRings) (nowSecs : Nat) : Shard × ShardRings :=
  let drained := s.drainConfigUpdates.drainPendingCancels rings
  ({ drained.1.freshPrices with
      liquidation := (drained.1.freshPrices.dueSteps (nowSecs * 1000000000)).1 }, drained.2)

/-- How many of the due orders a tick turned to; a tick with a full ring turns to none. -/
def turned (s : Shard) (rings : ShardRings) (nowSecs : Nat) (ids : Nat → OrderId) : Nat :=
  turnedTo ids (nowSecs * 1000000000) (s.dueOrders nowSecs) (s.ready rings nowSecs).1
    (s.ready rings nowSecs).2

/-- The engine with the steps that were carried out, and no others. -/
def carriedOut (s : Shard) (rings : ShardRings) (nowSecs : Nat) (ids : Nat → OrderId) :
    LiquidationEngine :=
  if rings.anyFull then s.liquidation
  else
    { s.liquidation with
      active := s.liquidation.carryOut (nowSecs * 1000000000) s.prepared.signedPosition
        s.prepared.markFor (s.turned rings nowSecs ids) s.liquidation.active }

def unsentOrders (s : Shard) (rings : ShardRings) (nowSecs : Nat) (ids : Nat → OrderId) :
    List LiquidationOrder :=
  if rings.anyFull then [] else (s.dueOrders nowSecs).drop (s.turned rings nowSecs ids)

/-- The due losses of a tick that was stopped before it applied them. -/
def unappliedLosses (s : Shard) (rings : ShardRings) (nowSecs : Nat) : List SocializedLoss :=
  if rings.anyFull then [] else s.dueLosses nowSecs

/-- When a tick stops early, only the steps it carried out are counted, and each other step is due
again with its round number at every later time. -/
def NoStepLost (s : Shard) (rings : ShardRings) (nowSecs : Nat) (ids : Nat → OrderId) : Prop :=
  ¬ s.Unstalled rings nowSecs ids →
    let s' := (s.tick rings nowSecs ids).1
    s'.liquidation = s.carriedOut rings nowSecs ids ∧
      (∀ order ∈ s.unsentOrders rings nowSecs ids, ∀ laterSecs ≥ nowSecs,
        ∃ again ∈ s'.dueOrders laterSecs, again.userId = order.userId ∧
          again.symbolId = order.symbolId ∧ again.round = order.round) ∧
      ∀ loss ∈ s.unappliedLosses rings nowSecs, ∀ laterSecs ≥ nowSecs,
        ∃ again ∈ s'.dueLosses laterSecs, again.userId = loss.userId ∧
          again.symbolId = loss.symbolId ∧ again.round = loss.round

def liveCancels (s : Shard) : Nat :=
  (s.pendingCancels.filter fun cancel => (s.frozenOrders cancel.orderId).isSome).length

/-- A ring is full when the tick starts, or what the queued cancels leave of the rings holds all due
orders but the last. -/
def RoomForRounds (s : Shard) (rings : ShardRings) (nowSecs : Nat) : Prop :=
  rings.anyFull ∨ s.dueOrders nowSecs = [] ∨ s.prepared.placedBeforeLast (s.dueOrders nowSecs) <
      min (rings.me.room - s.prepared.liveCancels) rings.response.room
  deriving Decidable

/-! ## The stopped tick -/

theorem freshPrices_cancels (s : Shard) (cancels : List CancelRequest) :
    { s with pendingCancels := cancels }.freshPrices =
      { s.freshPrices with pendingCancels := cancels } := by
  unfold freshPrices
  by_cases hdirty : s.markDirty
  · rw [if_pos hdirty, if_pos hdirty]
    rfl
  · rw [if_neg hdirty, if_neg hdirty]

theorem freshPrices_frame (s : Shard) :
    ∃ prices dirty, s.freshPrices =
      { s with fallbackMarkPrices := prices, markDirty := dirty } := by
  obtain ⟨prices, dirty, hfresh⟩ := s.freshPrices_eq
  exact ⟨prices, dirty, hfresh⟩

theorem freshPrices_drained (s : Shard) (rings : ShardRings) :
    (s.drainPendingCancels rings).1.freshPrices =
      { s.freshPrices with pendingCancels := (s.drainPendingCancels rings).1.pendingCancels } :=
  s.freshPrices_cancels (s.drainPendingCancels rings).1.pendingCancels

theorem ready_fst (s : Shard) (rings : ShardRings) (nowSecs : Nat) : (s.ready rings nowSecs).1 =
      { s.prepared with
        pendingCancels := (s.drainConfigUpdates.drainPendingCancels rings).1.pendingCancels
        liquidation := (s.prepared.dueSteps (nowSecs * 1000000000)).1 } := by
  unfold ready prepared
  dsimp only
  rw [freshPrices_drained]
  rfl

theorem room_ready (s : Shard) (rings : ShardRings) (nowSecs : Nat) :
    (s.ready rings nowSecs).2.room =
      min (rings.me.room - s.prepared.liveCancels) rings.response.room := by
  obtain ⟨_, _, hfresh⟩ := s.drainConfigUpdates.freshPrices_frame
  have hroom := room_drainCancels s.drainConfigUpdates.frozenOrders
    s.drainConfigUpdates.pendingCancels rings.me
  unfold prepared liveCancels
  rw [hfresh]
  rw [← hroom]
  rfl

theorem dueSteps_drained (s : Shard) (rings : ShardRings) (nowNs : Nat) :
    (s.drainConfigUpdates.drainPendingCancels rings).1.freshPrices.dueSteps nowNs =
      s.prepared.dueSteps nowNs := by
  rw [freshPrices_drained]
  rfl

theorem beforeQuotes_eq (s : Shard) {rings : ShardRings} (nowSecs : Nat) (ids : Nat → OrderId)
    (hfull : ¬ rings.anyFull) : s.beforeQuotes rings nowSecs ids =
      match placeOrders ids (nowSecs * 1000000000) (s.dueOrders nowSecs)
        (s.ready rings nowSecs).1 (s.ready rings nowSecs).2 with
      | (s', rings, false) => (s', rings, false)
      | (s', rings, true) =>
        let (s', rings) := socializeLosses (nowSecs * 1000000000) (s.dueLosses nowSecs) s' rings
        ({ s' with liquidation := s'.liquidation.removeDone }, rings, true) := by
  unfold beforeQuotes dueOrders dueLosses ready
  dsimp only
  rewrite [if_neg hfull, dueSteps_drained]
  rfl

theorem unstalled_iff (s : Shard) {rings : ShardRings} (nowSecs : Nat) (ids : Nat → OrderId)
    (hfull : ¬ rings.anyFull) : s.Unstalled rings nowSecs ids ↔
      (placeOrders ids (nowSecs * 1000000000) (s.dueOrders nowSecs)
        (s.ready rings nowSecs).1 (s.ready rings nowSecs).2).2.2 = true := by
  unfold Unstalled
  rw [s.beforeQuotes_eq nowSecs ids hfull]
  split <;> rename_i hplaced
  · rw [hplaced]
  · rw [hplaced]

theorem tick_stopped {rings : ShardRings} (hfull : ¬ rings.anyFull)
    (hstopped : ¬ s.Unstalled rings nowSecs ids) :
    (s.tick rings nowSecs ids).1.liquidation = (s.prepared.dueSteps (nowSecs * 1000000000)).1 := by
  have hengine := (calm_placeOrders ids (nowSecs * 1000000000) (s.dueOrders nowSecs)
    (s.ready rings nowSecs).1 (s.ready rings nowSecs).2).engine
  rw [s.unstalled_iff nowSecs ids hfull] at hstopped
  rw [ready_fst] at hengine
  rw [tick, s.beforeQuotes_eq nowSecs ids hfull]
  split <;> rename_i s' rings' hcase
  · split at hcase <;> rename_i hplaced
    · cases hcase
      rw [ready_fst] at hplaced
      rw [hplaced] at hengine
      exact hengine
    · cases hcase
  · split at hcase <;> rename_i hplaced
    · cases hcase
    · rw [hplaced] at hstopped
      exact absurd rfl hstopped

theorem liquidation_prepared (s : Shard) : s.prepared.liquidation = s.liquidation :=
  (calm_freshPrices s.drainConfigUpdates).engine.trans s.still_drainConfigUpdates.engine

theorem unstalled_iff_room (s : Shard) {rings : ShardRings} (nowSecs : Nat) (ids : Nat → OrderId)
    (hfull : ¬ rings.anyFull) :
    s.Unstalled rings nowSecs ids ↔ s.RoomForRounds rings nowSecs := by
  rw [s.unstalled_iff nowSecs ids hfull, placeOrders_completes, room_ready]
  have hplaced : (s.ready rings nowSecs).1.placedBeforeLast (s.dueOrders nowSecs) =
      s.prepared.placedBeforeLast (s.dueOrders nowSecs) := by
    rw [ready_fst]
    rfl
  rw [hplaced]
  exact ⟨.inr, fun h => h.resolve_left hfull⟩

end Shard

/-! ## No step is lost -/

open Shard

/-- **Backpressure.**  A tick that stops early loses no round and no socialized loss exactly when it
stops before the engine was asked, or never stops because all its orders fit. -/
theorem backpressure_loses_no_step (s : Shard) (rings : ShardRings) (nowSecs : Nat)
    (ids : Nat → OrderId) :
    s.NoStepLost rings nowSecs ids ↔ s.RoomForRounds rings nowSecs := by
  constructor
  · intro hkept
    by_contra hroom
    have hfull : ¬ rings.anyFull := fun hfull => hroom (.inl hfull)
    have hstopped := mt (s.unstalled_iff_room nowSecs ids hfull).1 hroom
    have hturned : s.turned rings nowSecs ids < (s.dueOrders nowSecs).length := by
      refine turnedTo_lt (Bool.eq_false_iff.2 ?_)
      exact mt (s.unstalled_iff nowSecs ids hfull).2 hstopped
    have hengine := (hkept hstopped).1
    rw [tick_stopped hfull hstopped, carriedOut, if_neg hfull] at hengine
    have hactive := congrArg LiquidationEngine.active hengine
    unfold dueOrders at hturned
    unfold dueSteps at hactive hturned
    rw [liquidation_prepared] at hactive hturned
    exact LiquidationEngine.map_processEntry_ne_carryOut hturned hactive
  · intro hroom hstopped
    by_cases hfull : rings.anyFull
    · have htick : (s.tick rings nowSecs ids).1 = s.drainConfigUpdates := by
        unfold tick beforeQuotes
        rw [if_pos hfull]
      rw [htick, carriedOut, if_pos hfull, unsentOrders, if_pos hfull, unappliedLosses,
        if_pos hfull]
      exact ⟨s.still_drainConfigUpdates.engine, fun _ hmem => absurd hmem not_mem_nil,
        fun _ hmem => absurd hmem not_mem_nil⟩
    · exact absurd ((s.unstalled_iff_room nowSecs ids hfull).2 hroom) hstopped

/-- A ring with one slot and two due orders and a due loss: the second order is not sent and the
loss not applied, yet the round of the order advances, the loss is done and its pause begins. -/
theorem full_ring_loses_round_and_loss :
    let s : Shard := {
      maxSymbols := 1, markPrices := fun _ => 50
      liquidation :=
        ⟨[⟨7, 0, 1, .active, 0, 0⟩, ⟨8, 0, 1, .active, 0, 0⟩, ⟨9, 0, 6, .active, 0, 0⟩],
        [], 1000, 0, 10, 5, 100⟩
      positions := fun userId _ =>
        some { userId := userId, symbolId := 0, longQty := 10, longEntryCost := 1000 } }
    let rings : ShardRings := ⟨⟨[], 4⟩, ⟨[], 1⟩⟩
    let after := s.tick rings 5 fun _ => (0, 1)
    after.2.me.items.length = 1 ∧ after.1.insuranceFunds 0 = none ∧
      s.unsentOrders rings 5 (fun _ => (0, 1)) = [⟨0, 8, 1, .sell, 49, 10, 10⟩] ∧
      s.unappliedLosses rings 5 = [⟨9, 0, 6, .sell, 50, 10, 5000000000⟩] ∧
      after.1.liquidation.active = [⟨7, 0, 2, .active, 0, 5000000000⟩,
        ⟨8, 0, 2, .active, 0, 5000000000⟩, ⟨9, 0, 6, .done, 0, 0⟩] ∧
      after.1.liquidation.socializedCooldown = [⟨9, 0, 5000001000⟩] ∧
      (after.1.dueOrders 6).map (·.round) = [2, 2] ∧ after.1.dueLosses 6 = [] := by
  decide +kernel

end Rsx.Risk
