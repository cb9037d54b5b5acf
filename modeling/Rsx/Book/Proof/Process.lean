import Rsx.Book.Proof.Refine

/-!
# Processing an order

`process_new_order` on a sound book does what the naive exchange does, and leaves a sound book.
-/

namespace Rsx.Book.Orderbook

open PriceTime HasQty Buckets List Option Exchange

variable {b b' : Orderbook} {q q' : Nat → List Nat} {free free' : List Nat}
  {order : IncomingOrder}
  {sub : Submission} {t : Nat} {ending : Ending}

/-- The invariant of a book between two calls.  The map may be older than the tick size in force. -/
structure Sound (b : Orderbook) (q : Nat → List Nat) (free : List Nat) : Prop
    extends Standing b q free where
  tick : b.compression.tickSize ∣ b.config.tickSize
  uncrossed : b.exchange.Uncrossed

structure Reported (order : IncomingOrder) (b : Orderbook) (sub : Submission)
    (fills : List (Entry × Int)) (b' : Orderbook) : Prop where
  perm : (fills.map fun x => (x.1.order, x.2)).Perm sub.fills
  handles : ∀ f ∈ fills, f.1.handle ≠ NONE
  events : ∃ e tail, b'.eventBuf = fills.flatMap (fillEvents order) ++ e :: tail ∧
    e.ending? = some sub.ending ∧ e.fill? = none ∧
    ∀ e' ∈ tail, e'.ending? = none ∧ e'.fill? = none
  users : b'.users =
    match sub.ending with
    | .inserted _ => (fills.foldl (fillUsers order) b.users).addOrder order.userId
    | _ => fills.foldl (fillUsers order) b.users

structure Settled (order : IncomingOrder) (b : Orderbook) (sub : Submission) (b' : Orderbook) :
    Prop where
  sound : ∃ q' free', Sound b' q' free'
  exchange : b'.exchange = sub.book
  frame : Frame b b'
  report : ∃ fills, Reported order b sub fills b'

theorem Sound.setEvents (hs : Sound b q free) (events : List Event) :
    Sound { b with eventBuf := events } q free :=
  ⟨⟨hs.queued.congr rfl rfl rfl rfl, hs.exact, hs.asc, hs.placed, hs.tracks⟩, hs.tick, hs.uncrossed⟩

theorem settled_bbo (h : Settled order b sub b')
    (hroom : b'.eventBuf.length < maxEvents) (c : Prop) [Decidable c] :
    ∃ b'', (if c then b'.emitBbo else some b') = some b'' ∧ Settled order b sub b'' := by
  by_cases hc : c
  · obtain ⟨⟨q', free', hs⟩, hex, hframe, fills, hrep⟩ := h
    obtain ⟨e, tail, hevents, hending, hfill, htail⟩ := hrep.events
    let bbo := b'.currentBbo
    let event : Event := .bbo bbo.bidPx bbo.bidQty bbo.askPx bbo.askQty
    have hemit : b'.emitBbo = some { b' with eventBuf := b'.eventBuf ++ [event] } := emit_eq hroom
    rw [if_pos hc, hemit]
    refine ⟨_, rfl, ⟨q', free', hs.setEvents _⟩, hex,
      hframe.setEvents b.eventBuf _, fills, hrep.perm, hrep.handles,
      ⟨e, tail ++ [event], ?_, hending, hfill, ?_⟩, hrep.users⟩
    · rw [hevents]
      simp
    · intro e' he'
      rcases mem_append.1 he' with he' | he'
      · exact htail e' he'
      · rw [mem_singleton.1 he']
        exact ⟨rfl, rfl⟩
  · rw [if_neg hc]
    exact ⟨b', rfl, h⟩

theorem length_fillEvents_le (taker : IncomingOrder) (fills : List (Entry × Int)) :
    (fills.flatMap (fillEvents taker)).length ≤ 2 * fills.length := by
  induction fills with
  | nil => simp
  | cons fill =>
    have hone : (fillEvents taker fill).length ≤ 2 := by
      unfold fillEvents
      split_ifs <;> simp
    rw [flatMap_cons, length_append, length_cons]
    omega

theorem Traded.length_le {taker : IncomingOrder} {fills : List (Entry × Int)}
    (h : Traded taker b fills b') (hevents : b.eventBuf = [])
    (hlen : fills.length ≤ maxMakersPerOrder) : b'.eventBuf.length + 4 ≤ maxEvents := by
  have hle := length_fillEvents_le taker fills
  rw [h.events, hevents, nil_append]
  unfold maxMakersPerOrder maxEvents at *
  omega

structure Ended (order : IncomingOrder) (b : Orderbook) (q : Nat → List Nat)
    (fills : List (Entry × Int)) (b₁ : Orderbook) (q₁ : Nat → List Nat) (free₁ : List Nat) :
    Prop where
  sound : Sound b₁ q₁ free₁
  exchange : b₁.exchange = b.exchange.matched order
  traded : Traded order b fills b₁
  perm : (fills.map fun x => (x.1.order, x.2)).Perm (b.exchange.consumed order).fills
  handles : ∀ f ∈ fills, f.1.handle ≠ NONE
  room : b₁.eventBuf.length + 4 ≤ maxEvents

theorem Sound.matchLoop (hs : Sound b q free) (hevents : b.eventBuf = [])
    (hqty : 0 < order.remainingQty) :
    ∃ b₁ q₁ free₁ fills, Orderbook.matchLoop (b.orders.capacity + 2) b order =
        some (b₁, order.setRemaining (b.exchange.consumed order).left) ∧
      Ended order b q fills b₁ q₁ free₁ ∧
      (0 < (b.exchange.consumed order).left →
        b₁.isMatchLimited (order.setRemaining (b.exchange.consumed order).left) =
          decide ((b.exchange.consumed order).budget = 0 ∧
            (b.exchange.consumed order).rest ≠ [])) := by
  have hroom : b.Room maxMakersPerOrder := by
    unfold Room
    rw [hevents]
    exact ⟨le_rfl, by simp⟩
  have hfuel : (order.crossing (b.entries q)).length + 1 < b.orders.capacity + 2 := by
    have hlen := (perm_arrange order.makerKey ((b.entries q).filter order.crosses)).length_eq
    have hfilter := length_filter_le order.crosses (b.entries q)
    have := hs.queued.length_entries_le
    unfold IncomingOrder.crossing
    omega
  obtain ⟨b₁, q₁, free₁, hrun, hm⟩ :=
    matchLoop_spec order hs.toStanding hroom hqty.le hfuel
  have hconsumed := hs.queued.consumed_eq order
  obtain ⟨fills, hperm, htraded⟩ := hm.traded
  have hlen : fills.length ≤ maxMakersPerOrder := by
    rw [hperm.length_eq]
    exact consume_fills_length ..
  have hex : b₁.exchange = b.exchange.matched order := hm.exchange_eq hs.queued
  refine ⟨b₁, q₁, free₁, fills, ?_, ⟨⟨hm.standing, ?_, ?_⟩, hex, htraded, ?_, ?_, ?_⟩, ?_⟩
  · rw [hconsumed]
    exact hrun
  · rw [htraded.frame.compression, htraded.frame.config]
    exact hs.tick
  · rw [hex]
    exact hs.uncrossed.matched
  · rw [hconsumed]
    exact hperm.map _
  · intro f hf
    have hmem := mem_of_mem_fills (hperm.mem_iff.1 hf)
    obtain ⟨_, -, he⟩ := mem_contents.1 (mem_filter.1 (mem_arrange.1 hmem)).1
    obtain ⟨_, hh, heq⟩ := mem_map.1 he
    rw [← heq]
    exact hs.queued.repr.ne_none hh
  · exact htraded.length_le hevents hlen
  · intro hleft
    rw [hconsumed] at hleft ⊢
    have hspent := (hm.room hleft).isBudgetSpent
    unfold isMatchLimited
    rw [hspent, Bool.eq_iff_iff, Bool.and_eq_true, decide_eq_true_eq, decide_eq_true_eq,
      hm.standing.bestCrosses_iff, hm.standing.queued.makers_eq]
    rw [← hm.crossing]
    rfl

variable {fills : List (Entry × Int)} {b₁ : Orderbook} {q₁ : Nat → List Nat} {free₁ : List Nat}

def takerDone (order : IncomingOrder) (reason : OrderDoneReason) (filledQty remainingQty : Int) :
    Event :=
  .orderDone NONE order.tif order.reduceOnly order.userId reason filledQty remainingQty
    order.orderIdHi order.orderIdLo

def endUsers (order : IncomingOrder) (users : UserRegistry) : Ending → UserRegistry
  | .inserted _ => users.addOrder order.userId
  | _ => users

theorem endUsers_of_ne {users : UserRegistry}
    (hnot : ∀ qty, ending ≠ .inserted qty) : endUsers order users ending = users := by
  cases ending with
  | inserted qty => exact absurd rfl (hnot qty)
  | done | failed => rfl

/-- What follows the matching: the rest is settled, and a moved top of book is reported. -/
theorem execute_of_matchLoop {rest : IncomingOrder}
    (hloop : Orderbook.matchLoop (b.orders.capacity + 2) b order = some (b₁, rest)) :
    b.execute order = (b₁.settleResidual rest order.remainingQty).bind fun b' =>
      if b'.bestTick .buy ≠ b.bestTick .buy ∨ b'.bestTick .sell ≠ b.bestTick .sell ∨
          b'.bestPx .buy ≠ b.bestPx .buy ∨ b'.bestPx .sell ≠ b.bestPx .sell then b'.emitBbo
      else some b' :=
  congrArg (Option.bind · _) hloop

theorem settleResidual_unlimited {left : Int} (hleft : 0 < left)
    (hlimit : ¬ b.isMatchLimited (order.setRemaining left) = true) :
    b.settleResidual (order.setRemaining left) order.remainingQty =
      match order.tif with
      | .ioc => b.done (order.setRemaining left) .expired (order.remainingQty - left) left
      | .fok => b.fail (order.setRemaining left) .fillOrKill
      | .gtc => (b.insertOrder (order.setRemaining left).resting).bind fun x =>
        x.2.emit (.orderInserted x.1 order.userId order.side order.price left order.orderIdHi
          order.orderIdLo) := by
  exact (if_pos hleft).trans (if_neg hlimit)

theorem Ended.settled (h : Ended order b q fills b₁ q₁ free₁) (hevents : b.eventBuf = [])
    {e : Event} (hending : e.ending? = some ending) (hfill : e.fill? = none)
    (hnot : ∀ qty, ending ≠ .inserted qty) :
    b₁.emit e = some { b₁ with eventBuf := b₁.eventBuf ++ [e] } ∧
      Settled order b ⟨(b.exchange.consumed order).fills, ending, b.exchange.matched order⟩
        { b₁ with eventBuf := b₁.eventBuf ++ [e] } := by
  have hroom := h.room
  refine ⟨emit_eq (by omega), ⟨q₁, free₁, h.sound.setEvents _⟩, h.exchange,
    h.traded.frame.setEvents b.eventBuf _, fills, h.perm, h.handles,
    ⟨e, [], ?_, hending, hfill, by simp⟩, h.traded.users.trans (endUsers_of_ne hnot).symm⟩
  rw [h.traded.events, hevents, nil_append]

theorem Ended.inserted (h : Ended order b q fills b₁ q₁ free₁) (hevents : b.eventBuf = [])
    (hqty : 0 ≤ order.remainingQty) (hplaces : b.compression.Places t order.price)
    (hq : Queued b q free) (hsum : b.exchange.totalQty + order.remainingQty ≤ i64Max) {left : Int}
    (hleftEq : (b.exchange.consumed order).left = left) (hleft : 0 < left)
    (hsub : sub = ⟨(b.exchange.consumed order).fills, .inserted left,
      (b.exchange.matched order).add (order.setRemaining left).resting⟩)
    (huncrossed : sub.book.Uncrossed) :
    let insert : Option Orderbook := (b₁.insertOrder (order.setRemaining left).resting).bind
      fun x => x.2.emit (.orderInserted x.1 order.userId order.side order.price left
        order.orderIdHi order.orderIdLo)
    (sub.book.size ≤ b.orders.capacity →
      ∃ b', insert = some b' ∧ Settled order b sub b' ∧ b'.eventBuf.length < maxEvents) ∧
    (b.orders.capacity < sub.book.size → insert = none) := by
  intro insert
  have hframe := h.traded.frame
  have hsize : sub.book.size = (b₁.entries q₁).length + 1 := by
    rw [hsub, size_add, ← h.exchange, h.sound.queued.size_exchange]
  constructor
  · intro hfits
    have hle : left ≤ order.remainingQty := by
      rw [← hleftEq]
      refine consume_left_le hqty fun o ho => ?_
      rw [hq.makers_eq] at ho
      obtain ⟨e, he, rfl⟩ := mem_map.1 ho
      obtain ⟨_, -, he⟩ := mem_contents.1 (mem_filter.1 (mem_arrange.1 he)).1
      exact hq.view_pos e he
    have hsum₁ : total (b₁.entries q₁) + left ≤ i64Max := by
      have htotal := b.exchange.totalQty_matched order
      rw [← h.exchange, h.sound.queued.totalQty_exchange] at htotal
      omega
    have hplaces₁ : b₁.compression.Places t (order.setRemaining left).resting.price := by
      rw [hframe.compression]
      exact hplaces
    have hroom₁ : (b₁.entries q₁).length < b₁.orders.capacity := by
      rw [hframe.capacity]
      omega
    obtain ⟨x, b₂, free₂, hrun, hj, hst₂⟩ :=
      insertOrder_spec h.sound.toStanding rfl hplaces₁ hleft hsum₁ hroom₁
    have hex : b₂.exchange = sub.book := by
      rw [hsub, ← h.exchange]
      exact exchange_joined h.sound.toStanding hst₂ hj.frame.compression hplaces₁ hj.view
    have hs₂ : Sound b₂ (Function.update q₁ t (q₁ t ++ [x])) free₂ := by
      refine ⟨hst₂, ?_, hex ▸ huncrossed⟩
      rw [hj.frame.compression, hj.frame.config]
      exact h.sound.tick
    have hroom := h.room
    have hroom₂ : b₂.eventBuf.length < maxEvents := by
      rw [hj.events]
      omega
    let event : Event := .orderInserted x order.userId order.side order.price left
      order.orderIdHi order.orderIdLo
    have hinsert : insert = some { b₂ with eventBuf := b₂.eventBuf ++ [event] } := by
      simp only [insert, hrun, bind_some]
      exact emit_eq hroom₂
    refine ⟨_, hinsert, ⟨⟨_, free₂, hs₂.setEvents _⟩, hex,
      (hframe.trans hj.frame).setEvents b.eventBuf _, fills, ?_, h.handles,
      ⟨event, [], ?_, ?_, rfl, by simp⟩, ?_⟩, ?_⟩
    · rw [hsub]
      exact h.perm
    · rw [hj.events, h.traded.events, hevents, nil_append]
    · rw [hsub]
      rfl
    · rw [hsub]
      rw [hj.users, h.traded.users]
      rfl
    · rw [length_append, length_singleton, hj.events]
      omega
  · intro hfull
    have hcap : (b₁.entries q₁).length = b₁.orders.capacity := by
      have := h.sound.queued.length_entries_le
      rw [hframe.capacity] at this ⊢
      omega
    simp only [insert, insertOrder_full h.sound.queued hcap, bind_none]

/-- **Matching and settling an order is trading it in the exchange**, unless its rest does not fit
into the slab. -/
theorem execute_spec (hs : Sound b q free) (hevents : b.eventBuf = [])
    (hqty : 0 < order.remainingQty) (hplaces : b.compression.Places t order.price)
    (hsum : b.exchange.totalQty + order.remainingQty ≤ i64Max) :
    ((b.exchange.trade order).book.size ≤ b.orders.capacity →
      ∃ b', b.execute order = some b' ∧ Settled order b (b.exchange.trade order) b') ∧
    (b.orders.capacity < (b.exchange.trade order).book.size → b.execute order = none) := by
  obtain ⟨b₁, _, _, _, hrun, hended, hlimited⟩ := hs.matchLoop hevents hqty
  set x := b.exchange with hx
  set left := (x.consumed order).left with hleft
  have hexec := execute_of_matchLoop hrun
  -- An end that does not rest the order fits into the slab and is reported by one event.
  have hend : ∀ (e : Event) (ending : Ending),
      x.trade order = ⟨(x.consumed order).fills, ending, x.matched order⟩ →
      b₁.settleResidual (order.setRemaining left) order.remainingQty = b₁.emit e →
      e.ending? = some ending → e.fill? = none → (∀ qty, ending ≠ .inserted qty) →
      (((x.trade order).book.size ≤ b.orders.capacity →
          ∃ b', b.execute order = some b' ∧ Settled order b (x.trade order) b') ∧
        (b.orders.capacity < (x.trade order).book.size → b.execute order = none)) := by
    intro e ending htrade hsettle hending hfill hnot
    have hsize : (x.matched order).size ≤ b.orders.capacity := by
      rw [← hended.exchange, hended.sound.queued.size_exchange, ← hended.traded.frame.capacity]
      exact hended.sound.queued.length_entries_le
    rw [htrade, hexec, hsettle]
    obtain ⟨hemit, hsettled⟩ := hended.settled hevents hending hfill hnot
    rw [hemit]
    refine ⟨fun _ => settled_bbo hsettled ?_ _, fun hlt => absurd hsize (not_le.2 hlt)⟩
    have := hended.room
    rw [length_append, length_singleton]
    omega
  by_cases hpos : 0 < left
  · have hlim := hlimited hpos
    by_cases hlimit : (x.consumed order).budget = 0 ∧ (x.consumed order).rest ≠ []
    · rw [decide_eq_true hlimit] at hlim
      refine hend (takerDone order .matchLimit (order.remainingQty - left) left) _ ?_ ?_ rfl rfl
        (by simp)
      · unfold trade
        simp only [← hleft, if_neg (not_le.2 hpos), if_pos hlimit]
      · exact (if_pos hpos).trans (if_pos hlim)
    · rw [decide_eq_false hlimit] at hlim
      have htrade : x.trade order =
          match order.tif with
          | .ioc => ⟨(x.consumed order).fills,
              .done .expired (order.remainingQty - left) left, x.matched order⟩
          | .fok => ⟨(x.consumed order).fills, .failed .fillOrKill, x.matched order⟩
          | .gtc => ⟨(x.consumed order).fills, .inserted left,
              (x.matched order).add (order.setRemaining left).resting⟩ := by
        exact (if_neg (not_le.2 hpos)).trans (if_neg hlimit)
      have hsettle := settleResidual_unlimited hpos (by rw [hlim]; decide)
      cases htif : order.tif with
      | ioc =>
        simp only [htif] at htrade hsettle
        exact hend (takerDone order .expired (order.remainingQty - left) left) _ htrade hsettle
          rfl rfl (by simp)
      | fok =>
        simp only [htif] at htrade hsettle
        exact hend (.orderFailed order.userId .fillOrKill order.orderIdHi order.orderIdLo) _ htrade
          hsettle rfl rfl (by simp)
      | gtc =>
        simp only [htif] at htrade hsettle
        have huncrossed : (x.trade order).book.Uncrossed := hs.uncrossed.trade
        obtain ⟨hok, hfull⟩ := hended.inserted hevents hqty.le hplaces hs.queued hsum hleft.symm
          hpos htrade huncrossed
        rw [hexec, hsettle]
        constructor
        · intro hsize
          obtain ⟨_, hinsert, hsettled, hroom⟩ := hok hsize
          rw [hinsert]
          exact settled_bbo hsettled hroom _
        · intro hsize
          rw [hfull hsize, bind_none]
  · refine hend (takerDone order .filled order.remainingQty 0) _ ?_ ?_ rfl rfl (by simp)
    · unfold trade
      simp only [← hleft, if_pos (not_lt.1 hpos)]
    · exact if_neg hpos

theorem clampReduceOnly_some {clamped : IncomingOrder}
    (hclamp : b.clampReduceOnly order = some clamped) :
    clamped = order ∨ ∃ net : Int, net ≠ 0 ∧
      clamped = order.setRemaining (min order.remainingQty (min (net.natAbs : Int) i64Max)) := by
  unfold clampReduceOnly at hclamp
  split_ifs at hclamp with hreduce
  · cases hnet : b.users.netQty order.userId with
    | none => simp [hnet] at hclamp
    | some net =>
      simp only [hnet] at hclamp
      split_ifs at hclamp with hreject
      refine .inr ⟨net, ?_, (Option.some.inj hclamp).symm⟩
      rintro rfl
      cases hside : order.side <;> simp [hside] at hreject
  · exact .inl (Option.some.inj hclamp).symm

/-- An order that passes the checks of `process_new_order`, and the order its reduce-only clamp
leaves. -/
structure Accepted (b : Orderbook) (order clamped : IncomingOrder) : Prop where
  fresh : order.remainingQty = order.qty
  aligned : b.alignmentFailure order = none
  clamp : b.clampReduceOnly order = some clamped

namespace Accepted

variable {clamped : IncomingOrder}

variable (h : Accepted b order clamped)
include h

theorem price_pos : 0 < order.price := by
  have haligned := h.aligned
  unfold alignmentFailure at haligned
  by_contra hle
  rw [if_pos (.inl (not_lt.1 hle))] at haligned
  exact absurd haligned (by simp)

theorem tick_dvd : b.config.tickSize ∣ order.price := by
  have haligned := h.aligned
  unfold alignmentFailure at haligned
  by_contra hdvd
  rw [if_pos (.inr fun hmod => hdvd (Int.dvd_of_tmod_eq_zero hmod))] at haligned
  exact absurd haligned (by simp)

theorem qty_pos : 0 < order.qty := by
  have haligned := h.aligned
  unfold alignmentFailure at haligned
  by_contra hle
  split_ifs at haligned with hprice hqty
  exact hqty (.inl (not_lt.1 hle))

theorem eq_setRemaining :
    clamped = order.setRemaining clamped.remainingQty ∧ 0 < clamped.remainingQty ∧
      clamped.remainingQty ≤ order.qty := by
  have hclamp := h.clamp
  have hpos := h.qty_pos
  have hfresh := h.fresh
  rcases clampReduceOnly_some hclamp with rfl | ⟨net, hne, rfl⟩
  · exact ⟨rfl, by omega, by omega⟩
  · have hmax : 0 < i64Max := by decide
    refine ⟨rfl, ?_, ?_⟩
    · show 0 < min order.remainingQty (min (net.natAbs : Int) i64Max)
      omega
    · show min order.remainingQty (min (net.natAbs : Int) i64Max) ≤ order.qty
      omega

end Accepted

section Submit

variable {clamped : IncomingOrder}

theorem settled_turnedAway (hs : Sound b q free) (e : Event) (ending : Ending)
    (hending : e.ending? = some ending) (hfill : e.fill? = none)
    (hnot : ∀ qty, ending ≠ .inserted qty) :
    Settled order { b with eventBuf := [] } ⟨[], ending, b.exchange⟩
      { b with eventBuf := [e] } := by
  exact ⟨⟨q, free, hs.setEvents _⟩, rfl, (Frame.refl b).setEvents _ _, [], List.Perm.nil, by simp,
    ⟨e, [], rfl, hending, hfill, by simp⟩, (endUsers_of_ne hnot).symm⟩

theorem canFillRegion_setEvents (events : List Event) (side : Side) (limit needed : Int)
    (fuel : Nat) (region : Nat × Nat) (makers : Nat) (sum : Int) :
    ({ b with eventBuf := events } : Orderbook).canFillRegion side limit needed fuel region makers
      sum = b.canFillRegion side limit needed fuel region makers sum := by
  induction fuel generalizing region makers sum with
  | zero => rfl
  | succ fuel ih =>
    unfold canFillRegion
    simp only [ih]
    rfl

theorem canFillFully_setEvents (events : List Event) (side : Side) (limit needed : Int) :
    ({ b with eventBuf := events } : Orderbook).canFillFully side limit needed =
      b.canFillFully side limit needed := by
  have hregions : ∀ (regions : List (Nat × Nat)) (makers : Nat) (sum : Int),
      ({ b with eventBuf := events } : Orderbook).canFillRegions side limit needed regions makers
        sum = b.canFillRegions side limit needed regions makers sum := by
    intro regions
    induction regions with
    | nil => intros; rfl
    | cons region regions ih =>
      intro makers sum
      unfold canFillRegions
      simp only [ih, canFillRegion_setEvents]
  unfold canFillFully
  simp only [hregions]

/-- The order fails one of the checks that come first. -/
def Rejected (b : Orderbook) (order : IncomingOrder) (reason : OrderFailureReason) : Prop :=
  b.alignmentFailure order = some reason ∨
    b.alignmentFailure order = none ∧ b.clampReduceOnly order = none ∧ reason = .reduceOnly

theorem checks_cases (b : Orderbook) (order : IncomingOrder) :
    (∃ reason, Rejected b order reason) ∨
      ∃ clamped, b.alignmentFailure order = none ∧ b.clampReduceOnly order = some clamped := by
  cases haligned : b.alignmentFailure order with
  | some reason => exact .inl ⟨reason, .inl haligned⟩
  | none =>
    cases hclamp : b.clampReduceOnly order with
    | none => exact .inl ⟨_, .inr ⟨haligned, hclamp, rfl⟩⟩
    | some clamped => exact .inr ⟨clamped, rfl, rfl⟩

theorem Rejected.not_accepted {reason : OrderFailureReason} (h : Rejected b order reason) :
    ¬ Accepted b order clamped := by
  intro ha
  rcases h with halign | ⟨-, hclamp, -⟩
  · exact absurd (ha.aligned.symm.trans halign) nofun
  · exact absurd (ha.clamp.symm.trans hclamp) nofun

theorem processNewOrder_rejected {reason : OrderFailureReason} (h : Rejected b order reason) :
    b.processNewOrder order = some { b with eventBuf :=
      [.orderFailed order.userId reason order.orderIdHi order.orderIdLo] } := by
  have hfail : ({ b with eventBuf := [] } : Orderbook).fail order reason = some { b with eventBuf :=
      [.orderFailed order.userId reason order.orderIdHi order.orderIdLo] } := rfl
  unfold processNewOrder
  rcases h with halign | ⟨halign, hclamp, rfl⟩
  · have : ({ b with eventBuf := [] } : Orderbook).alignmentFailure order = some reason := halign
    simp only [this, hfail]
  · have halign' : ({ b with eventBuf := [] } : Orderbook).alignmentFailure order = none := halign
    have hclamp' : ({ b with eventBuf := [] } : Orderbook).clampReduceOnly order = none := hclamp
    simp only [halign', hclamp', hfail]

theorem processNewOrder_checked (haligned₀ : b.alignmentFailure order = none)
    (hclamp₀ : b.clampReduceOnly order = some clamped) :
    b.processNewOrder order = (let b₀ := { b with eventBuf := [] }
      if clamped.postOnly && b.bestCrosses clamped then
        b₀.done clamped .postOnly 0 clamped.remainingQty
      else if clamped.tif = .fok then do
        if ← b.canFillFully clamped.side clamped.price clamped.remainingQty then b₀.execute clamped
        else b₀.fail clamped .fillOrKill
      else
        b₀.execute clamped) := by
  have haligned : ({ b with eventBuf := [] } : Orderbook).alignmentFailure order = none :=
    haligned₀
  have hclamp : ({ b with eventBuf := [] } : Orderbook).clampReduceOnly order = some clamped :=
    hclamp₀
  unfold processNewOrder
  simp only [haligned, hclamp, canFillFully_setEvents]
  rfl

/-- **`process_new_order` submits the order to the exchange.**  `fits` is the answer of
`can_fill_fully`, which only a fill-or-kill order asks for. -/
theorem processNewOrder_spec (hs : Sound b q free) (ha : Accepted b order clamped)
    (hreg : b.compression.Regular order.price)
    (hsum : b.exchange.totalQty + order.qty ≤ i64Max) (fits : Bool)
    (hfits : clamped.tif = .fok →
      b.canFillFully clamped.side clamped.price clamped.remainingQty = some fits) :
    ((b.exchange.submitIf clamped fits).book.size ≤ b.orders.capacity →
      ∃ b', b.processNewOrder order = some b' ∧
        Settled clamped { b with eventBuf := [] } (b.exchange.submitIf clamped fits) b') ∧
    (b.orders.capacity < (b.exchange.submitIf clamped fits).book.size →
      b.processNewOrder order = none) := by
  obtain ⟨hclamped, hqty, _⟩ := ha.eq_setRemaining
  have hprice : clamped.price = order.price := by rw [hclamped]; rfl
  have hplaces : b.compression.Places (b.compression.priceToIndex clamped.price) clamped.price :=
    ⟨rfl, hprice ▸ hreg, hprice ▸ hs.tick.trans ha.tick_dvd, hprice ▸ ha.price_pos,
      clamped.priceFits⟩
  obtain ⟨hok, hfull⟩ := execute_spec (hs.setEvents []) rfl hqty hplaces
    (show b.exchange.totalQty + clamped.remainingQty ≤ i64Max by omega)
  have hsize : b.exchange.size ≤ b.orders.capacity := by
    rw [hs.queued.size_exchange]
    exact hs.queued.length_entries_le
  rw [processNewOrder_checked ha.aligned ha.clamp]
  unfold submitIf
  by_cases hpost : clamped.postOnly = true ∧ b.exchange.makers clamped ≠ []
  · have hcrosses := (hs.bestCrosses_iff clamped).2 hpost.2
    rw [if_pos hpost]
    simp only [hpost.1, hcrosses, Bool.and_self, if_true]
    refine ⟨fun _ => ⟨_, rfl, ?_⟩, fun hlt => absurd hsize (not_le.2 hlt)⟩
    exact settled_turnedAway hs (takerDone clamped .postOnly 0 clamped.remainingQty)
      (.done .postOnly 0 clamped.remainingQty) rfl rfl (by simp)
  · have hcrosses : ¬ (clamped.postOnly && b.bestCrosses clamped) = true := by
      rw [Bool.and_eq_true, hs.bestCrosses_iff]
      exact hpost
    rw [if_neg hpost]
    simp only [if_neg hcrosses]
    by_cases hfok : clamped.tif = .fok
    · simp only [hfits hfok, bind_eq_bind, bind_some, hfok, true_and]
      cases fits with
      | true => exact ⟨hok, hfull⟩
      | false =>
        refine ⟨fun _ => ⟨_, rfl, ?_⟩, fun hlt => absurd hsize (not_le.2 hlt)⟩
        exact settled_turnedAway hs
          (.orderFailed clamped.userId .fillOrKill clamped.orderIdHi clamped.orderIdLo)
          (.failed .fillOrKill) rfl rfl (by simp)
    · rw [if_neg hfok, if_neg (fun h => hfok h.1)]
      exact ⟨hok, hfull⟩

end Submit

end Rsx.Book.Orderbook
