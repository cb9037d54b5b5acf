import Rsx.Book.Proof.Process
import Rsx.Book.Proof.Sweep

/-!
# What an order does under any map

The events, the user registry and the resting orders after `process_new_order`, in terms of the
fills it made and the way the order ended.
-/

namespace Rsx.Book

/-- What an end says of an order of which `filled` was filled.  Under some maps a fill-or-kill order
fails with a part of it filled. -/
def Ending.Accounts (order : IncomingOrder) (filled : Int) : Ending → Prop
  | .done _ filledQty remainingQty =>
    filledQty = filled ∧ filledQty + remainingQty = order.remainingQty ∧ 0 ≤ remainingQty
  | .inserted rest => 0 < rest ∧ filled + rest = order.remainingQty
  | .failed _ => filled = 0 ∨ order.tif = .fok

theorem Ending.accounts_failed (order : IncomingOrder) (reason : OrderFailureReason) :
    (Ending.failed reason).Accounts order 0 :=
  Or.inl rfl

def Bbo.event (bbo : Bbo) : Event :=
  .bbo bbo.bidPx bbo.bidQty bbo.askPx bbo.askQty

namespace Orderbook

open PriceTime HasQty Buckets Option

variable {b b' b₁ : Orderbook} {q q' : Nat → List Nat} {free free' : List Nat}
  {order : IncomingOrder} {fills : List (Entry × Int)} {handle : Nat} {ending : Ending}
  {bbo : Option Bbo}
  {left : Int}

def endEvent (order : IncomingOrder) (handle : Nat) : Ending → Event
  | .done reason filledQty remainingQty => takerDone order reason filledQty remainingQty
  | .inserted qty => .orderInserted handle order.userId order.side order.price qty order.orderIdHi
      order.orderIdLo
  | .failed reason => .orderFailed order.userId reason order.orderIdHi order.orderIdLo

def endHeld (order : IncomingOrder) (handle : Nat) (held : Nat → Option Resting) :
    Ending → Nat → Option Resting
  | .inserted qty => Function.update held handle (some (order.setRemaining qty).resting)
  | _ => held

theorem endHeld_of_ne {held : Nat → Option Resting} (hnot : ∀ qty, ending ≠ .inserted qty) :
    endHeld order handle held ending = held := by
  cases ending with
  | inserted qty => exact absurd rfl (hnot qty)
  | done | failed => rfl

/-- What an order does that fills `fills` and then ends.  An order that enters with a negative
quantity is reported as filled. -/
structure Recorded (order : IncomingOrder) (b : Orderbook) (fills : List (Entry × Int))
    (handle : Nat) (ending : Ending) (bbo : Option Bbo) (b' : Orderbook) : Prop where
  frame : Frame b b'
  drawn : Drawn b.held fills
  count : fills.length ≤ maxMakersPerOrder
  events : b'.eventBuf = fills.flatMap (fillEvents order) ++
    endEvent order handle ending :: bbo.toList.map Bbo.event
  users : b'.users = endUsers order (fills.foldl (fillUsers order) b.users) ending
  held : b'.held = endHeld order handle (fills.foldl fillHeld b.held) ending
  accounts : 0 ≤ order.remainingQty → ending.Accounts order (filledQty fills)
  fresh : (fills.foldl fillHeld b.held) handle = none
  crosses : ∀ fill ∈ fills, order.crosses fill.1
  bounded : 0 ≤ order.remainingQty → filledQty fills ≤ order.remainingQty

/-- A book with consistent lists that came from `b`. -/
def Follows (b : Orderbook) (q : Nat → List Nat) (b' : Orderbook) : Prop :=
  ∃ q' free', Queued b' q' free' ∧
    (Indexed b.compression (b.view q) → Indexed b'.compression (b'.view q'))

theorem Follows.setEvents (h : Follows b q b') (events : List Event) :
    Follows b q { b' with eventBuf := events } := by
  obtain ⟨q', free', hq', hindexed⟩ := h
  exact ⟨q', free', hq'.congr rfl rfl rfl rfl, hindexed⟩

theorem emit_some {event : Event} (hrun : b.emit event = some b') :
    b' = { b with eventBuf := b.eventBuf ++ [event] } := by
  unfold emit at hrun
  split_ifs at hrun
  exact (Option.some.inj hrun).symm

theorem insertOrder_some {o : Resting} {h : Nat} (hrun : b.insertOrder o = some (h, b')) :
    (∃ orders, b.orders.alloc = some (h, orders)) ∧
      b.compression.priceToIndex o.price < b.compression.totalSlots := by
  unfold insertOrder insertResting at hrun
  cases halloc : b.orders.alloc with
  | none => simp [halloc] at hrun
  | some x =>
    obtain ⟨_, orders⟩ := x
    rw [halloc, bind_eq_bind, bind_some] at hrun
    split_ifs at hrun with hlt
    obtain ⟨rfl, -⟩ := Prod.ext_iff.1 (Option.some.inj hrun)
    exact ⟨⟨orders, rfl⟩, hlt⟩

theorem Queued.held_none (hq : Queued b q free) : b.held NONE = none := by
  refine if_neg fun hactive => ?_
  obtain ⟨_, ht⟩ := (hq.active NONE).1 hactive
  exact hq.repr.ne_none ht rfl

structure MatchEnd (order : IncomingOrder) (b : Orderbook) (q : Nat → List Nat)
    (fills : List (Entry × Int)) (b₁ : Orderbook) (left : Int) : Prop where
  swept : ∃ q₁ free₁, Swept order b q maxMakersPerOrder order.remainingQty fills b₁ q₁ free₁ left
  events : b₁.eventBuf = fills.flatMap (fillEvents order)

section

variable (h : MatchEnd order b q fills b₁ left)
include h

theorem MatchEnd.follows : Follows b q b₁ := by
  obtain ⟨q₁, free₁, hs⟩ := h.swept
  refine ⟨q₁, free₁, hs.queued, fun hindexed => ?_⟩
  rw [hs.traded.frame.compression]
  exact hs.origin.indexed hindexed

theorem MatchEnd.ended (haccounts : ending.Accounts order (filledQty fills))
    (hnot : ∀ qty, ending ≠ .inserted qty)
    (hrun : b₁.emit (endEvent order NONE ending) = some b') :
    Follows b q b' ∧ Recorded order b fills NONE ending none b' := by
  obtain ⟨_, _, hs⟩ := h.swept
  rw [emit_some hrun]
  refine ⟨h.follows.setEvents _, ?_⟩
  refine
    { frame := hs.traded.frame.setEvents b.eventBuf _
      drawn := hs.traded.drawn
      count := hs.budget
      events := congrArg (· ++ [endEvent order NONE ending]) h.events
      users := hs.traded.users.trans (endUsers_of_ne hnot).symm
      held := hs.traded.held.trans (endHeld_of_ne hnot).symm
      accounts := fun _ => haccounts
      fresh := ?_
      crosses := hs.crosses
      bounded := fun _ => hs.filledQty_le }
  rw [← hs.traded.held]
  exact hs.queued.held_none

theorem MatchEnd.inserted (hleft : 0 < left)
    (hsum : total (b.entries q) + order.remainingQty ≤ i64Max)
    (hrun : ((b₁.insertOrder (order.setRemaining left).resting).bind fun x =>
      x.2.emit (.orderInserted x.1 order.userId order.side order.price left order.orderIdHi
        order.orderIdLo)) = some b') :
    Follows b q b' ∧ ∃ handle, Recorded order b fills handle (.inserted left) none b' := by
  obtain ⟨q₁, _, hs⟩ := h.swept
  obtain ⟨⟨x, b₂⟩, hinsert, hemit⟩ := bind_eq_some_iff.1 hrun
  obtain ⟨⟨_, halloc⟩, hlt⟩ := insertOrder_some hinsert
  have hfit : total (b₁.view q₁ (b₁.compression.priceToIndex order.price)) + left ≤ i64Max := by
    have hview := hs.queued.total_view_le (b₁.compression.priceToIndex order.price)
    have htotal := hs.total
    have hbalance := hs.balance
    have hfilled := hs.traded.drawn.filledQty_nonneg
    omega
  obtain ⟨_, free₃, hinsert₃, hj⟩ := hs.queued.insertOrder halloc rfl rfl hlt hleft hfit
  obtain ⟨-, rfl⟩ := Prod.ext_iff.1 (Option.some.inj (hinsert.symm.trans hinsert₃))
  rw [emit_some hemit]
  have hframe := hs.traded.frame
  refine ⟨⟨_, free₃, hj.queued.congr rfl rfl rfl rfl, fun hindexed => ?_⟩, x, ?_⟩
  · have hcomp := hj.frame.compression
    show Indexed b₂.compression (b₂.view _)
    rw [hcomp, hj.view]
    intro u e he
    rcases mem_joined.1 he with he | ⟨rfl, rfl⟩
    · rw [hframe.compression]
      exact hs.origin.indexed hindexed u e he
    · rfl
  · exact
      { frame := (hframe.trans hj.frame).setEvents b.eventBuf _
        drawn := hs.traded.drawn
        count := hs.budget
        events := by
          rw [hj.events, h.events]
          rfl
        users := by
          rw [hj.users, hs.traded.users]
          rfl
        held := by
          show b₂.held = _
          rw [hj.held, hs.traded.held]
          rfl
        accounts := fun _ => ⟨hleft, hs.balance⟩
        fresh := hs.traded.held ▸ hj.fresh
        crosses := hs.crosses
        bounded := fun _ => hs.filledQty_le }

end

theorem Recorded.reportBbo (hf : Follows b q b₁) (hr : Recorded order b fills handle ending none b₁)
    {c : Prop} [Decidable c] (hrun : (if c then b₁.emitBbo else some b₁) = some b') :
    Follows b q b' ∧ ∃ bbo, Recorded order b fills handle ending bbo b' := by
  split_ifs at hrun
  · rw [emit_some hrun]
    refine ⟨hf.setEvents _, some b₁.currentBbo, ?_⟩
    exact
      { frame := hr.frame.setEvents b.eventBuf _
        drawn := hr.drawn
        count := hr.count
        events := by
          rw [hr.events, List.append_assoc]
          rfl
        users := hr.users
        held := hr.held
        accounts := hr.accounts
        fresh := hr.fresh
        crosses := hr.crosses
        bounded := hr.bounded }
  · cases hrun
    exact ⟨hf, none, hr⟩

theorem MatchEnd.settleResidual (h : MatchEnd order b q fills b₁ left)
    (hsum : total (b.entries q) + order.remainingQty ≤ i64Max)
    (hrun : b₁.settleResidual (order.setRemaining left) order.remainingQty = some b') :
    Follows b q b' ∧ ∃ handle ending, Recorded order b fills handle ending none b' := by
  obtain ⟨_, _, hs⟩ := h.swept
  have hbalance := hs.balance
  have hnonneg := hs.nonneg
  -- An `OrderDone` reports what was filled and what is left.
  have hdone : ∀ (reason : OrderDoneReason) (filled : Int), filled = order.remainingQty - left →
      b₁.emit (takerDone order reason filled left) = some b' →
      Follows b q b' ∧ ∃ handle ending, Recorded order b fills handle ending none b' := by
    intro reason filled hfilled hemit
    have haccounts : (Ending.done reason filled left).Accounts order (filledQty fills) :=
      ⟨by omega, by omega, hnonneg⟩
    obtain ⟨hf, hr⟩ := h.ended haccounts (by simp) hemit
    exact ⟨hf, NONE, _, hr⟩
  by_cases hleft : 0 < left
  · by_cases hlimit : b₁.isMatchLimited (order.setRemaining left) = true
    · refine hdone .matchLimit _ rfl (Eq.trans ?_ hrun)
      exact ((if_pos hleft).trans (if_pos hlimit)).symm
    · rw [settleResidual_unlimited hleft hlimit] at hrun
      cases htif : order.tif with
      | ioc =>
        simp only [htif] at hrun
        exact hdone .expired _ rfl hrun
      | fok =>
        simp only [htif] at hrun
        have haccounts : (Ending.failed .fillOrKill).Accounts order (filledQty fills) :=
          Or.inr htif
        obtain ⟨hf, hr⟩ := h.ended haccounts (by simp) hrun
        exact ⟨hf, NONE, _, hr⟩
      | gtc =>
        simp only [htif] at hrun
        obtain ⟨hf, handle, hr⟩ := h.inserted hleft hsum hrun
        exact ⟨hf, handle, _, hr⟩
  · obtain rfl : left = 0 := by omega
    refine hdone .filled order.remainingQty (by omega) (Eq.trans ?_ hrun)
    exact (if_neg hleft).symm

theorem Queued.turnedAway (hq : Queued b q free)
    (haccounts : 0 ≤ order.remainingQty → ending.Accounts order 0)
    (hnot : ∀ qty, ending ≠ .inserted qty)
    (hrun : ({ b with eventBuf := [] } : Orderbook).emit (endEvent order NONE ending) = some b') :
    Follows b q b' ∧ Recorded order b [] NONE ending none b' := by
  rw [emit_some hrun]
  refine ⟨⟨q, free, hq.congr rfl rfl rfl rfl, id⟩, ?_⟩
  exact
    { frame := (Frame.refl b).setEvents _ _
      drawn := trivial
      count := Nat.zero_le _
      events := rfl
      users := (endUsers_of_ne hnot).symm
      held := (endHeld_of_ne hnot).symm
      accounts := haccounts
      fresh := hq.held_none
      crosses := fun _ h => absurd h List.not_mem_nil
      bounded := id }

theorem Queued.execute (hq : Queued b q free) (hevents : b.eventBuf = [])
    (hsum : total (b.entries q) + order.remainingQty ≤ i64Max)
    (hrun : b.execute order = some b') :
    Follows b q b' ∧ ∃ fills handle ending bbo, Recorded order b fills handle ending bbo b' := by
  by_cases hqty : order.remainingQty ≤ 0
  · have hnot : ¬ 0 < order.remainingQty := not_lt.2 hqty
    have hloop : Orderbook.matchLoop (b.orders.capacity + 2) b order = some (b, order) := by
      exact if_neg fun h => hnot h.1
    have hsettle : b.settleResidual order order.remainingQty =
        b.emit (endEvent order NONE (.done .filled order.remainingQty 0)) := by
      exact if_neg hnot
    rw [execute_of_matchLoop hloop, hsettle] at hrun
    obtain ⟨b₂, hemit, hbbo⟩ := bind_eq_some_iff.1 hrun
    have hb : ({ b with eventBuf := [] } : Orderbook) = b := by rw [← hevents]
    rw [← hb] at hemit
    have haccounts : 0 ≤ order.remainingQty →
        (Ending.done .filled order.remainingQty 0).Accounts order 0 := fun h =>
      ⟨le_antisymm hqty h, Int.add_zero _, le_rfl⟩
    obtain ⟨hf, hr⟩ := hq.turnedAway haccounts (by simp) hemit
    obtain ⟨hf', bbo, hr'⟩ := hr.reportBbo hf hbbo
    exact ⟨hf', [], NONE, _, bbo, hr'⟩
  replace hqty := not_le.1 hqty
  have hroom : b.Room maxMakersPerOrder := by
    unfold Room
    rw [hevents]
    exact ⟨le_rfl, by simp⟩
  have hfuel : (b.entries q).length + 1 < b.orders.capacity + 2 := by
    have := hq.length_entries_le
    omega
  obtain ⟨fills, b₁, q₁, free₁, left, hloop, hs⟩ := hq.matchLoop hroom hqty.le order hfuel
  have hend : MatchEnd order b q fills b₁ left := by
    refine ⟨⟨q₁, free₁, hs⟩, ?_⟩
    rw [hs.traded.events, hevents, List.nil_append]
  rw [show b.execute order = _ from execute_of_matchLoop hloop] at hrun
  obtain ⟨_, hsettle, hbbo⟩ := bind_eq_some_iff.1 hrun
  obtain ⟨hf, handle, ending, hr⟩ := hend.settleResidual hsum hsettle
  obtain ⟨hf', bbo, hr'⟩ := hr.reportBbo hf hbbo
  exact ⟨hf', fills, handle, ending, bbo, hr'⟩

theorem clampReduceOnly_le {clamped : IncomingOrder}
    (hclamp : b.clampReduceOnly order = some clamped) :
    clamped.remainingQty ≤ order.remainingQty := by
  rcases clampReduceOnly_some hclamp with rfl | ⟨_, -, rfl⟩
  · exact le_rfl
  · exact min_le_left _ _

/-- **What `process_new_order` does under any map.**  Either the order passes the checks and
`effective` is what the reduce-only clamp leaves of it, or it fails and nothing happens. -/
theorem Queued.processNewOrder (hq : Queued b q free)
    (hsum : total (b.entries q) + order.remainingQty ≤ i64Max)
    (hrun : b.processNewOrder order = some b') :
    Follows b q b' ∧ ∃ effective fills handle ending bbo,
      Recorded effective b fills handle ending bbo b' ∧
      (b.alignmentFailure order = none ∧ b.clampReduceOnly order = some effective ∨
        effective = order ∧ fills = [] ∧ ∃ reason, ending = .failed reason) := by
  rcases checks_cases b order with ⟨reason, hrejected⟩ | ⟨clamped, haligned, hclamp⟩
  · have hrun' : ({ b with eventBuf := [] } : Orderbook).emit
        (endEvent order NONE (.failed reason)) = some b' :=
      (processNewOrder_rejected hrejected).symm.trans hrun
    obtain ⟨hf, hr⟩ := hq.turnedAway (fun _ => Ending.accounts_failed _ reason) (by simp) hrun'
    exact ⟨hf, order, [], NONE, _, none, hr, .inr ⟨rfl, rfl, reason, rfl⟩⟩
  · rw [processNewOrder_checked haligned hclamp] at hrun
    have hle := clampReduceOnly_le hclamp
    -- Every branch ends with the clamped order recorded.
    suffices h : Follows b q b' ∧ ∃ fills handle ending bbo,
        Recorded clamped b fills handle ending bbo b' by
      obtain ⟨hf, fills, handle, ending, bbo, hr⟩ := h
      exact ⟨hf, clamped, fills, handle, ending, bbo, hr, .inl ⟨haligned, hclamp⟩⟩
    have hexec : ({ b with eventBuf := [] } : Orderbook).execute clamped = some b' →
        Follows b q b' ∧ ∃ fills handle ending bbo,
          Recorded clamped b fills handle ending bbo b' := by
      intro hrun
      have hq₀ : Queued ({ b with eventBuf := [] } : Orderbook) q free :=
        hq.congr rfl rfl rfl rfl
      obtain ⟨hf, fills, handle, ending, bbo, hr⟩ :=
        hq₀.execute rfl (show total (b.entries q) + _ ≤ _ by omega) hrun
      refine ⟨hf, fills, handle, ending, bbo, ?_⟩
      exact ⟨hr.frame.setEvents b.eventBuf b'.eventBuf, hr.drawn, hr.count, hr.events, hr.users,
        hr.held, hr.accounts, hr.fresh, hr.crosses, hr.bounded⟩
    by_cases hpost : (clamped.postOnly && b.bestCrosses clamped) = true
    · simp only [if_pos hpost] at hrun
      have haccounts : 0 ≤ clamped.remainingQty →
          (Ending.done .postOnly 0 clamped.remainingQty).Accounts clamped 0 := fun h =>
        ⟨rfl, Int.zero_add _, h⟩
      obtain ⟨hf, hr⟩ := hq.turnedAway haccounts (by simp) hrun
      exact ⟨hf, [], NONE, _, none, hr⟩
    · simp only [if_neg hpost] at hrun
      by_cases hfok : clamped.tif = .fok
      · rw [if_pos hfok] at hrun
        obtain ⟨fits, -, hrun⟩ := bind_eq_some_iff.1 hrun
        cases fits with
        | true => exact hexec hrun
        | false =>
          have haccounts : 0 ≤ clamped.remainingQty →
              (Ending.failed .fillOrKill).Accounts clamped 0 := fun _ =>
            Ending.accounts_failed _ _
          obtain ⟨hf, hr⟩ := hq.turnedAway haccounts (by simp) hrun
          exact ⟨hf, [], NONE, _, none, hr⟩
      · rw [if_neg hfok] at hrun
        exact hexec hrun

end Orderbook

end Rsx.Book
