import Rsx.Book.Proof.Ledger
import Rsx.Book.Proof.Run

/-!
# The representation of a book

The lists, the counters, the bitmaps, the slab and the user registry describe one set of resting
orders, after every operation and whatever the compression maps are.
-/

namespace Rsx.Book

open Function List Orderbook UserRegistry

inductive Operation
  | call (call : Call)
  | insertResting (price qty : Int) (side : Side) (tif : TimeInForce) (userId : Nat)
      (reduceOnly : Bool) (timestampNs orderIdHi orderIdLo : Nat)
  | modifyOrderQtyDown (handle : Nat) (newQty : Int) (userId orderIdHi orderIdLo : Nat)
  | maintainUsers (nowNs : Nat) (replayMode : Bool)

namespace Orderbook

open PriceTime HasQty Buckets

variable {b b' : Orderbook} {q : Nat → List Nat} {free : List Nat} {config : BookConfig}
  {capacity : Nat} {midPrice : Int} {ops : List Operation} {op : Operation}
  {h handle userId orderIdHi orderIdLo : Nat} {newQty : Int}

def operate (b : Orderbook) : Operation → Option Orderbook
  | .call call => b.call call
  | .insertResting price qty side tif userId reduceOnly timestampNs orderIdHi orderIdLo =>
    (b.insertResting price qty side tif userId reduceOnly timestampNs orderIdHi orderIdLo).map
      Prod.snd
  | .modifyOrderQtyDown handle newQty userId orderIdHi orderIdLo =>
    some (b.modifyOrderQtyDown handle newQty userId orderIdHi orderIdLo).2
  | .maintainUsers nowNs replayMode => some (b.maintainUsers nowNs replayMode)

/-- The quantities of the book and of what an operation adds fit `i64`, an order is not reduced to
nothing, and one that is rested directly has a positive quantity. -/
def Legal (b : Orderbook) : Operation → Prop
  | .call (.newOrder order) => b.exchange.totalQty + order.remainingQty ≤ i64Max
  | .call (.cancelOrderChecked ..) => True
  | .call (.recenterNow _) => b.exchange.totalQty ≤ i64Max
  | .insertResting _ qty .. => 0 < qty ∧ b.exchange.totalQty + qty ≤ i64Max
  | .modifyOrderQtyDown _ newQty .. => 0 < newQty
  | .maintainUsers .. => True

instance (b : Orderbook) : ∀ op, Decidable (b.Legal op)
  | .call (.newOrder _) => inferInstanceAs (Decidable (_ ≤ _))
  | .call (.cancelOrderChecked ..) => .isTrue trivial
  | .call (.recenterNow _) => inferInstanceAs (Decidable (_ ≤ _))
  | .insertResting .. => inferInstanceAs (Decidable (_ ∧ _))
  | .modifyOrderQtyDown .. => inferInstanceAs (Decidable (_ < _))
  | .maintainUsers .. => .isTrue trivial

/-- The invariant, for the queues `q` of the slots and the free list `free` of the slab. -/
structure Represents (b : Orderbook) (q : Nat → List Nat) (free : List Nat) : Prop where
  repr : Repr b q [] free
  mem : ∀ t h, h ∈ q t ↔ (b.slot h).active = true ∧ b.compression.priceToIndex (b.slot h).price = t
  pos : ∀ h, (b.slot h).active = true → 0 < (b.slot h).remainingQty
  users : ∀ u, (b.users.orderCount u).getD 0 =
    (List.range b.orders.capacity).countP fun h => (b.slot h).active && (b.slot h).userId == u

structure Kept (b : Orderbook) (q : Nat → List Nat) (free : List Nat) : Prop where
  queued : Queued b q free
  indexed : Indexed b.compression (b.view q)
  tallied : Tallied b.orders.capacity b.users b.held

theorem Kept.represents (hk : Kept b q free) : Represents b q free where
  repr := hk.queued.repr
  mem := by
    intro t h
    constructor
    · intro hmem
      exact ⟨(hk.queued.active h).2 ⟨t, hmem⟩, hk.indexed t (b.entry h) (mem_map_of_mem hmem)⟩
    · rintro ⟨hactive, hindex⟩
      obtain ⟨u, hu⟩ := (hk.queued.active h).1 hactive
      have : b.compression.priceToIndex (b.slot h).price = u :=
        hk.indexed u (b.entry h) (mem_map_of_mem hu)
      exact hindex ▸ this ▸ hu
  pos := by
    intro h hactive
    obtain ⟨u, hu⟩ := (hk.queued.active h).1 hactive
    exact hk.queued.pos u h hu
  users := by
    intro u
    rw [← ordersOf_eq, hk.tallied.count u]
    refine countP_congr fun h _ => ?_
    unfold held ownedBy
    cases (b.slot h).active
    · simp
    · simp [OrderSlot.resting]

theorem kept_new (hcap : capacity ≤ NONE) :
    Kept (new config capacity midPrice) (fun _ => []) [] where
  queued := queued_new hcap
  indexed := fun _ _ hmem => absurd hmem not_mem_nil
  tallied := by
    refine ⟨consistent_empty, ranged_empty, fun h hh => absurd rfl hh,
      fun u => ?_⟩
    have hnone : (new config capacity midPrice).held = fun _ => none := rfl
    rw [hnone]
    simp [heldBy, ownedBy, ordersOf, stateOf, new]

/-! ## One operation -/

section

variable (hk : Kept b q free)
include hk

theorem Kept.processNewOrder {order : IncomingOrder}
    (hsum : b.exchange.totalQty + order.remainingQty ≤ i64Max)
    (hrun : b.processNewOrder order = some b') : ∃ q' free', Kept b' q' free' := by
  rw [hk.queued.totalQty_exchange] at hsum
  obtain ⟨⟨q', free', hq', hindexed⟩, _, _, _, _, _, hr, -⟩ :=
    hk.queued.processNewOrder hsum hrun
  exact ⟨q', free', hq', hindexed hk.indexed, hk.tallied.recorded hq' hr⟩

theorem Kept.insertOrder {o : Resting}
    (horig : o.originalQty = o.remainingQty) (hqty : 0 < o.remainingQty)
    (hsum : b.exchange.totalQty + o.remainingQty ≤ i64Max)
    (hrun : b.insertOrder o = some (h, b')) : ∃ q' free', Kept b' q' free' := by
  rw [hk.queued.totalQty_exchange] at hsum
  obtain ⟨⟨_, halloc⟩, hlt⟩ := insertOrder_some hrun
  have hview := hk.queued.total_view_le (b.compression.priceToIndex o.price)
  obtain ⟨_, free', hrun', hj⟩ :=
    hk.queued.insertOrder halloc horig rfl hlt hqty (by omega)
  obtain ⟨-, rfl⟩ := Prod.ext_iff.1 (Option.some.inj (hrun.symm.trans hrun'))
  refine ⟨_, free', hj.queued, ?_, ?_⟩
  · rw [hj.frame.compression, hj.view]
    intro u e he
    rcases mem_joined.1 he with he | ⟨rfl, rfl⟩
    · exact hk.indexed u e he
    · rfl
  · rw [hj.frame.capacity, hj.users, hj.held]
    refine hk.tallied.insert ?_ hj.fresh o
    rw [← hj.frame.capacity]
    refine hj.queued.held_lt ?_
    rw [hj.held]
    simp

theorem Kept.cancelOrder (hactive : (b.slot h).active = true) :
    (∃ q' free', Kept (b.cancelOrder h).2 q' free') ∧ Frame b (b.cancelOrder h).2 ∧
      (b.cancelOrder h).2.held = update b.held h none ∧
      (b.cancelOrder h).2.users = b.users.removeOrder (b.slot h).userId := by
  obtain ⟨t, hmem⟩ := (hk.queued.active h).1 hactive
  obtain ⟨_, _, hsplit⟩ := append_of_mem hmem
  obtain ⟨_, hrun, hl⟩ := hk.queued.cancelOrder hsplit
  rw [hrun]
  refine ⟨⟨_, _, hl.queued, ?_, ?_⟩, hl.frame, hl.held, hl.users⟩
  · rw [hl.frame.compression]
    exact fun u e he => hk.indexed u e (hl.view_subset hsplit he)
  · rw [hl.frame.capacity, hl.users, hl.held]
    exact hk.tallied.remove (held_eq hactive)

theorem Kept.cancelOrder_totalQty (hactive : (b.slot h).active = true) :
    (b.cancelOrder h).2.exchange.totalQty + (b.slot h).remainingQty = b.exchange.totalQty := by
  obtain ⟨⟨_, _, hk'⟩, hframe, hheld, -⟩ := hk.cancelOrder hactive
  have hsome := held_eq hactive
  have hremove := heldQty_remove (hk.queued.held_lt (by rw [hsome]; simp)) hsome fun _ => true
  rw [← hk.queued.heldQty_eq, ← hk'.queued.heldQty_eq, hframe.capacity, hheld, ← hremove]
  rfl

theorem Kept.reduce
    (hmatches : b.orderMatches handle userId orderIdHi orderIdLo = true) (hpos : 0 < newQty)
    (hlt : newQty < (b.slot handle).remainingQty) :
    ∃ b', b.modifyOrderQtyDown handle newQty userId orderIdHi orderIdLo = (true, b') ∧
      Kept b' q free ∧ Frame b b' ∧ b'.held = update b.held handle
        (some (PriceTime.HasQty.setQty (b.slot handle).resting newQty)) := by
  obtain ⟨-, hactive, -⟩ := of_decide_eq_true hmatches
  obtain ⟨t, hmem⟩ := (hk.queued.active handle).1 hactive
  have htick : (b.slot handle).tickIndex = t := (hk.queued.repr.level t).tick handle hmem
  have hmax : (b.slot handle).remainingQty ≤ i64Max := hk.queued.repr.qty_le hmem
  -- The new quantity is what a reduction by the difference leaves.
  have hdiff : wrap64 ((b.slot handle).remainingQty - newQty) =
      (b.slot handle).remainingQty - newQty := wrap64_of_nonneg (by omega) (by omega)
  have hreduced : (b.modifySlot handle fun slot => { slot with remainingQty := newQty }).setLevel
      (b.slot handle).tickIndex
        { b.activeLevels (b.slot handle).tickIndex with
          totalQty := sat64 ((b.activeLevels (b.slot handle).tickIndex).totalQty -
            wrap64 ((b.slot handle).remainingQty - newQty)) } =
      b.reduced t handle ((b.slot handle).remainingQty - newQty) := by
    rw [htick, hdiff, reduced, sub_sub_cancel]
  refine ⟨b.reduced t handle ((b.slot handle).remainingQty - newQty), ?_,
    ⟨hk.queued.reduced hmem (by omega) (by omega), ?_, ?_⟩, ⟨rfl, rfl, rfl, rfl, rfl, rfl, rfl⟩, ?_⟩
  · rw [← hreduced]
    exact (if_neg (not_not.2 hmatches)).trans ((if_neg hpos.ne').trans (if_neg (not_le.2 hlt)))
  · intro u e he
    obtain ⟨x, hx, rfl⟩ := mem_map.1 he
    have hprice : ((b.reduced t handle ((b.slot handle).remainingQty - newQty)).slot x).price =
        (b.slot x).price := by
      rw [slot_reduced]
      split_ifs with hxh
      · rw [hxh]
      · rfl
    have hindex := hk.indexed u (b.entry x) (mem_map_of_mem hx)
    exact (congrArg b.compression.priceToIndex hprice).trans hindex
  · rw [held_reduced _ hactive]
    exact hk.tallied.change (held_eq hactive) rfl
  · rw [held_reduced _ hactive, sub_sub_cancel]

end

theorem modifyOrderQtyDown_of_not_lt
    (hpos : 0 < newQty) (hnot : b.orderMatches handle userId orderIdHi orderIdLo = false ∨
      (b.slot handle).remainingQty ≤ newQty) :
    b.modifyOrderQtyDown handle newQty userId orderIdHi orderIdLo = (false, b) := by
  unfold modifyOrderQtyDown
  by_cases hmatches : b.orderMatches handle userId orderIdHi orderIdLo = true
  · rw [if_neg (not_not.2 hmatches)]
    exact (if_neg hpos.ne').trans (if_pos (hnot.resolve_left (by simp [hmatches])))
  · rw [if_pos hmatches]

section

variable (hk : Kept b q free)
include hk

theorem Kept.modifyOrderQtyDown (hpos : 0 < newQty) :
    ∃ q' free',
      Kept (b.modifyOrderQtyDown handle newQty userId orderIdHi orderIdLo).2 q' free' := by
  by_cases hlower : b.orderMatches handle userId orderIdHi orderIdLo = true ∧
      newQty < (b.slot handle).remainingQty
  · obtain ⟨_, hrun, hk', -⟩ := hk.reduce hlower.1 hpos hlower.2
    rw [hrun]
    exact ⟨q, free, hk'⟩
  · rw [modifyOrderQtyDown_of_not_lt hpos]
    · exact ⟨q, free, hk⟩
    · rw [not_and_or, not_lt, Bool.not_eq_true] at hlower
      exact hlower

theorem Kept.recenterNow (hsum : b.exchange.totalQty ≤ i64Max) {newMid : Int}
    (hrun : b.recenterNow newMid = some b') :
    ∃ q', Kept b' q' free ∧ b'.held = b.held ∧ b'.users = b.users ∧ b'.eventBuf = b.eventBuf ∧
      b'.config = b.config ∧ b'.orders.capacity = b.orders.capacity := by
  rw [hk.queued.totalQty_exchange] at hsum
  rcases hk.queued.recenterNow hsum newMid with ⟨_, q', hrun', hr⟩ | ⟨hnone, -⟩
  · obtain rfl := Option.some.inj (hrun'.symm.trans hrun)
    refine ⟨q', ⟨hr.queued, hr.indexed, ?_⟩, hr.held, hr.users, hr.events, hr.config, hr.capacity⟩
    rw [hr.capacity, hr.users, hr.held]
    exact hk.tallied
  · exact absurd (hnone.symm.trans hrun) (by simp)

theorem Kept.maintainUsers (nowNs : Nat) (replayMode : Bool) :
    Kept (b.maintainUsers nowNs replayMode) q free := by
  obtain ⟨hc, hstate⟩ := hk.tallied.consistent.maintainOne nowNs replayMode
  exact ⟨hk.queued.congr rfl rfl rfl rfl, hk.indexed, hc,
    hk.tallied.ranged.congr fun u => (hstate u).1, hk.tallied.bound,
    fun u => (hstate u).2.trans (hk.tallied.count u)⟩

theorem Kept.congr (events : List Event) (config : BookConfig) :
    Kept { b with eventBuf := events, config := config } q free :=
  ⟨hk.queued.congr rfl rfl rfl rfl, hk.indexed, hk.tallied⟩

theorem Kept.operate (hlegal : b.Legal op)
    (hrun : b.operate op = some b') : ∃ q' free', Kept b' q' free' := by
  cases op with
  | call call =>
    cases call with
    | newOrder => exact hk.processNewOrder hlegal hrun
    | cancelOrderChecked handle userId orderIdHi orderIdLo =>
      cases hrun
      unfold cancelOrderChecked
      by_cases hmatches : b.orderMatches handle userId orderIdHi orderIdLo = true
      · rw [if_pos hmatches]
        exact (hk.cancelOrder (of_decide_eq_true hmatches).2.1).1
      · rw [if_neg hmatches]
        exact ⟨q, free, hk⟩
    | recenterNow =>
      obtain ⟨q', hk', -⟩ := hk.recenterNow hlegal hrun
      exact ⟨q', free, hk'⟩
  | insertResting price qty side tif userId reduceOnly timestampNs orderIdHi orderIdLo =>
    obtain ⟨⟨h, b''⟩, hinsert, rfl⟩ := Option.map_eq_some_iff.1 hrun
    let o : Resting :=
      { userId := userId, orderIdHi := orderIdHi, orderIdLo := orderIdLo, side := side
        price := price, remainingQty := qty, originalQty := qty, tif := tif
        reduceOnly := reduceOnly, timestampNs := timestampNs }
    have hinsert' : b.insertOrder o = some (h, b'') := hinsert
    exact hk.insertOrder rfl hlegal.1 hlegal.2 hinsert'
  | modifyOrderQtyDown =>
    cases hrun
    exact hk.modifyOrderQtyDown hlegal
  | maintainUsers nowNs replayMode =>
    cases hrun
    exact ⟨q, free, hk.maintainUsers nowNs replayMode⟩

end

/-- **The representation invariant.**  It holds in every book that legal operations reach, for any
mid price and any map. -/
theorem represents_of_run (hcap : capacity ≤ NONE)
    (hops : Along Orderbook.operate Legal (Orderbook.new config capacity midPrice) ops)
    (hrun : run Orderbook.operate (Orderbook.new config capacity midPrice) ops = some b) :
    ∃ q free, Represents b q free := by
  obtain ⟨q, free, hk⟩ := run_invariant (I := fun b => ∃ q free, Kept b q free)
    (fun ⟨_, _, hk⟩ hlegal hstep => hk.operate hlegal hstep) ⟨_, _, kept_new hcap⟩ hops hrun
  exact ⟨q, free, hk.represents⟩

/-- Every operation once, with an order that fills one maker and part of another. -/
theorem represents_of_run_mixed :
    let sell : Nat → IncomingOrder := fun id =>
      { price := 5010, qty := 3, remainingQty := 3, side := .sell, tif := .gtc, userId := id
        orderIdLo := id }
    let buy : IncomingOrder :=
      { price := 5010, qty := 4, remainingQty := 4, side := .buy, tif := .gtc, userId := 3
        orderIdLo := 3 }
    ∃ b q free, run Orderbook.operate (Orderbook.new ⟨1, 1, 1⟩ 4 5000)
        [.call (.newOrder (sell 1)), .insertResting 5010 5 .sell .gtc 2 false 0 0 2,
          .call (.newOrder buy), .modifyOrderQtyDown 1 2 2 0 2, .call (.recenterNow 5100),
          .maintainUsers 1 false, .insertResting 4000 1 .buy .gtc 2 false 0 0 4,
          .call (.cancelOrderChecked 1 2 0 2)] = some b ∧
      b.users.orderCount 2 = some 1 ∧ Represents b q free := by
  intro sell buy
  simp only [exists_and_left]
  refine exists_run (P := fun b => b.users.orderCount 2 = some 1) (by decide +kernel)
    fun b hrun hcount => ?_
  exact ⟨hcount, represents_of_run (by decide) (by decide +kernel) hrun⟩

/-- `insert_resting` does not look at the quantity: an order for nothing rests. -/
theorem represents_fails_zero : ∃ b, run Orderbook.operate (Orderbook.new ⟨1, 1, 1⟩ 4 5000)
        [.insertResting 5010 0 .sell .gtc 1 false 0 0 1] = some b ∧
      (b.slot 0).active = true ∧ (b.slot 0).remainingQty = 0 ∧ ¬ ∃ q free, Represents b q free := by
  refine exists_run (P := fun b => (b.slot 0).active = true ∧ (b.slot 0).remainingQty = 0)
    (by decide +kernel) fun b _ ⟨hactive, hzero⟩ => ⟨hactive, hzero, ?_⟩
  rintro ⟨_, _, h⟩
  exact absurd (h.pos 0 hactive) (by omega)

end Orderbook

end Rsx.Book
