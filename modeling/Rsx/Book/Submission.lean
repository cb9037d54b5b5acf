import Rsx.Book.Events
import Rsx.Book.Proof.Ledger
import Rsx.Book.Stamps

/-!
# A new order without the map

What `process_new_order` does to the resting orders and the positions, said without the compression
map and the slab: it depends on the config, on the position of the order's user and on the exchange
alone.  Two books that agree on these and on nothing else go through the same orders.
-/

namespace Rsx.Book

open PriceTime HasQty Buckets UserRegistry List Exchange FillReport

/-! ## Positions -/

theorem signedQty_eq_or (side : Side) (qty : Int) :
    signedQty side qty = qty ∨ signedQty side qty = -qty := by
  cases side
  · exact .inl rfl
  · exact .inr rfl

def FillReport.change (taker : IncomingOrder) (u : Nat) (fill : FillReport) : Int :=
  (if u = taker.userId then signedQty taker.side fill.qty else 0) -
    if u = fill.userId then signedQty taker.side fill.qty else 0

def netChange (taker : IncomingOrder) (fills : List FillReport) (u : Nat) : Int :=
  (fills.map (change taker u)).sum

theorem netChange_perm {taker : IncomingOrder} {fills fills' : List FillReport}
    (h : fills.Perm fills') (u : Nat) : netChange taker fills u = netChange taker fills' u :=
  (h.map _).sum_eq

theorem netChange_congr {taker taker' : IncomingOrder} (huser : taker'.userId = taker.userId)
    (hside : taker'.side = taker.side) (fills : List FillReport) (u : Nat) :
    netChange taker' fills u = netChange taker fills u := by
  unfold netChange change
  rw [huser, hside]

/-- No position leaves `i64` while at most `qty` is traded. -/
def UserRegistry.Roomy (r : UserRegistry) (qty : Int) : Prop :=
  ∀ i < r.userBump, ((r.userStates i).netQty.natAbs : Int) + qty ≤ i64Max

instance (r : UserRegistry) (qty : Int) : Decidable (r.Roomy qty) :=
  inferInstanceAs (Decidable (∀ i < _, _))

namespace UserRegistry

variable {r : UserRegistry} {qty : Int}

theorem Roomy.netOf (h : r.Roomy qty) (hc : r.Consistent) (hqty : qty ≤ i64Max) (u : Nat) :
    ((r.netOf u).natAbs : Int) + qty ≤ i64Max := by
  unfold UserRegistry.netOf stateOf
  cases hmap : r.userMap u with
  | none => simpa using hqty
  | some i => exact h i (hc.owner u i hmap).1

theorem Consistent.netOf_fill (hc : r.Consistent) (taker : IncomingOrder) (maker : Resting)
    (hqty : 0 < qty) (hroom : ∀ u, ((r.netOf u).natAbs : Int) + qty ≤ i64Max) (u : Nat) :
    (r.applyFill taker.userId maker.userId taker.side qty).netOf u =
      r.netOf u + change taker u (.of (maker, qty)) := by
  have hsigned := signedQty_eq_or taker.side qty
  have htaker := hroom taker.userId
  have hmaker := hroom maker.userId
  rw [hc.netOf_applyFill]
  unfold change of
  dsimp only
  have hsat : ∀ x : Int, x.natAbs ≤ i64Max → sat64 x = x := fun x hx =>
    sat64_of_mem (by unfold i64Min i64Max at *; omega) (by omega)
  by_cases hself : maker.userId = taker.userId
  · rw [hself, hsat (r.netOf taker.userId + _) (by omega)]
    by_cases hu : u = taker.userId
    · subst hu
      rw [hsat _ (by omega)]
      omega
    · simp [hu]
  · rw [if_neg hself]
    by_cases hm : u = maker.userId
    · subst hm
      rw [hsat _ (by omega)]
      omega
    · by_cases ht : u = taker.userId
      · subst ht
        rw [if_neg hm, hsat _ (by omega)]
        omega
      · simp [hm, ht]

end UserRegistry

namespace Orderbook

variable {b b' : Orderbook} {q : Nat → List Nat} {free : List Nat} {order clamped : IncomingOrder}
  {held : Nat → Option Resting} {users : UserRegistry} {n : Nat} {fills : List (Entry × Int)}
  {handle : Nat} {ending : Ending} {bbo : Option Bbo}

theorem natAbs_change_le (taker : IncomingOrder) (u : Nat) {fill : FillReport}
    (hqty : 0 < fill.qty) : ((change taker u fill).natAbs : Int) ≤ fill.qty := by
  unfold change
  have hsigned := signedQty_eq_or taker.side fill.qty
  split_ifs <;> omega

theorem Drawn.netOf (hd : Drawn held fills) (ht : Tallied n users held) (taker : IncomingOrder)
    (hroom : ∀ u, ((users.netOf u).natAbs : Int) + filledQty fills ≤ i64Max) (u : Nat) :
    (fills.foldl (fillUsers taker) users).netOf u =
      users.netOf u + netChange taker ((fills.map fun x => (x.1.order, x.2)).map of) u := by
  induction fills generalizing users held with
  | nil => simp [netChange]
  | cons fill fills ih =>
    obtain ⟨hheld, -, hpos, -, hrest⟩ := hd
    have hrestQty : 0 ≤ filledQty fills := hrest.filledQty_nonneg
    rw [filledQty_cons] at hroom
    have hone : ∀ v, (fillUsers taker users fill).netOf v =
        users.netOf v + change taker v (.of (fill.1.order, fill.2)) := fun v => by
      rw [ht.netOf_fillUsers]
      exact ht.consistent.netOf_fill taker fill.1.order hpos (fun w => by have := hroom w; omega) v
    rw [foldl_cons, ih hrest (ht.oneFill taker hheld) ?_, hone]
    · unfold netChange
      simp only [map_cons, sum_cons]
      omega
    · intro v
      have hqty : (of (fill.1.order, fill.2)).qty = fill.2 := rfl
      have hchange := natAbs_change_le taker v (hqty ▸ hpos)
      have := hroom v
      rw [hone]
      omega

theorem Recorded.filterMap_fill (hr : Recorded order b fills handle ending bbo b') :
    b'.eventBuf.filterMap Event.fill? = (fills.map fun x => (x.1.order, x.2)).map of := by
  have hend : (endEvent order handle ending).fill? = none := by cases ending <;> rfl
  have hbbo : (bbo.toList.map Bbo.event).filterMap Event.fill? = [] := by cases bbo <;> rfl
  rw [hr.events, filterMap_append, filterMap_cons_none hend, hbbo, append_nil]
  exact (filterMap_fillEvents order hr.drawn.handles).1

theorem Recorded.netOf
    (hr : Recorded order b fills handle ending bbo b') (ht : Tallied n b.users b.held)
    (hqty : 0 ≤ order.remainingQty)
    (hroom : ∀ u, ((b.users.netOf u).natAbs : Int) + order.remainingQty ≤ i64Max) (u : Nat) :
    b'.users.netOf u = b.users.netOf u + netChange order (b'.eventBuf.filterMap Event.fill?) u := by
  have hfills := hr.drawn.netOf ht order (fun v => by
    have := hroom v
    have := hr.bounded hqty
    omega) u
  rw [hr.users, hr.filterMap_fill, ← hfills]
  cases ending with
  | done | failed => rfl
  | inserted =>
    exact ((ht.foldFills order hr.drawn).consistent.addOrder order.userId).2 u |>.1

/-! ## Submissions -/

/-- What a new order comes to: it fails a check, or it is submitted with the quantity left to it. -/
def submission (b : Orderbook) (order : IncomingOrder) : Submission :=
  match b.alignmentFailure order with
  | some reason => ⟨[], .failed reason, b.exchange⟩
  | none =>
    match b.clampReduceOnly order with
    | none => ⟨[], .failed .reduceOnly, b.exchange⟩
    | some clamped => b.exchange.submitIf clamped (b.walkFits clamped)

/-- **A new order.**  It goes through exactly if the book has room for the orders left, and then the
events and the resting orders are those of the submission. -/
theorem Sound.processNewOrder_submission (hs : Sound b q free)
    (hfits : b.exchange.totalQty ≤ i64Max) (hfresh : b.FreshFits order)
    (hreg : b.compression.Regular order.price) :
    ((b.submission order).book.size ≤ b.orders.capacity →
      ∃ b', b.processNewOrder order = some b' ∧ (∃ q' free', Sound b' q' free') ∧ Frame b b' ∧
        Shows (b.submission order) b') ∧
    (b.orders.capacity < (b.submission order).book.size → b.processNewOrder order = none) := by
  have hsize : b.exchange.size ≤ b.orders.capacity := by
    rw [hs.queued.size_exchange]
    exact hs.queued.length_entries_le
  rcases checks_cases b order with ⟨reason, hrejected⟩ | ⟨clamped, halign, hclamp⟩
  · have hsub : b.submission order = ⟨[], .failed reason, b.exchange⟩ := by
      unfold submission
      rcases hrejected with halign | ⟨halign, hclamp, rfl⟩
      · rw [halign]
      · rw [halign, hclamp]
    rw [hsub]
    refine ⟨fun _ => ?_, fun h => absurd h (Nat.not_lt.2 hsize)⟩
    exact ⟨_, processNewOrder_rejected hrejected, ⟨q, free, hs.setEvents _⟩,
      (Frame.refl b).setEvents _ _, .nil, rfl, rfl⟩
  · have ha : Accepted b order clamped := ⟨hfresh.1, halign, hclamp⟩
    obtain ⟨hok, hfull⟩ := processNewOrder_spec hs ha hreg hfresh.2 _ fun _ =>
      hs.canFillFully_eq ha.eq_setRemaining.2.1 hfits
    have hsub : b.submission order = b.exchange.submitIf clamped (b.walkFits clamped) := by
      rw [submission, halign, hclamp]
    rw [hsub]
    refine ⟨fun h => ?_, hfull⟩
    obtain ⟨b', hrun, hsettled⟩ := hok h
    exact ⟨b', hrun, hsettled.sound, hsettled.frame.setEvents b.eventBuf b'.eventBuf,
      hsettled.shows⟩

theorem Standing.walkFits_eq (hst : Standing b q free)
    (hsize : b.exchange.size ≤ maxMakersPerOrder) (order : IncomingOrder) :
    b.walkFits order = b.exchange.fillable order := by
  have hperm := hst.walked_perm order
  have hlen : (b.exchange.makers order).length ≤ maxMakersPerOrder := by
    have hmakers : (b.exchange.makers order).length ≤
        (b.exchange.orders order.side.opposite).length := length_filter_le _ _
    have hside : (b.exchange.orders order.side.opposite).length ≤ b.exchange.size := by
      unfold size
      cases order.side.opposite <;> omega
    omega
  unfold walkFits fillable
  rw [take_of_length_le (hperm.length_eq.trans_le hlen), take_of_length_le hlen, total_perm hperm]

theorem clampReduceOnly_eq (b : Orderbook) (order : IncomingOrder) : b.clampReduceOnly order =
      if order.reduceOnly = true then
        if (match order.side with
          | .buy => decide (0 ≤ b.users.netOf order.userId)
          | .sell => decide (b.users.netOf order.userId ≤ 0)) = true then none
        else some (order.setRemaining
          (min order.remainingQty (min (b.users.netOf order.userId).natAbs i64Max)))
      else some order := by
  unfold clampReduceOnly
  by_cases hreduce : order.reduceOnly = true
  · rw [if_pos hreduce, if_pos hreduce, netOf_eq]
    cases b.users.netQty order.userId with
    | none => cases order.side <;> rfl
    | some => rfl
  · rw [if_neg hreduce, if_neg hreduce]

theorem clampReduceOnly_stamped (b : Orderbook) (order : IncomingOrder) (tsNs : Nat) :
    b.clampReduceOnly (order.stamped tsNs) =
      (b.clampReduceOnly order).map fun order => order.stamped tsNs := by
  rw [clampReduceOnly_eq, clampReduceOnly_eq, apply_ite (Option.map _), apply_ite (Option.map _)]
  rfl

/-- Two books alike but for the map, the handles and the times. -/
structure Alike (b c : Orderbook) : Prop where
  exchange : b.exchange.unstamped = c.exchange.unstamped
  net : ∀ u, b.users.netOf u = c.users.netOf u
  config : b.config = c.config
  capacity : b.orders.capacity = c.orders.capacity

theorem Alike.submission {c : Orderbook} {q' : Nat → List Nat} {free' : List Nat}
    (h : Alike b c) (hst : Standing b q free) (hst' : Standing c q' free')
    (hsize : b.exchange.size ≤ maxMakersPerOrder) (tsNs : Nat) :
    (b.submission order).unstamped = (c.submission (order.stamped tsNs)).unstamped := by
  have hsize' : c.exchange.size ≤ maxMakersPerOrder := by
    rw [← size_unstamped, ← h.exchange, size_unstamped]
    exact hsize
  have halign : c.alignmentFailure (order.stamped tsNs) = b.alignmentFailure order := by
    unfold alignmentFailure
    rw [h.config]
    rfl
  have hclamp : c.clampReduceOnly (order.stamped tsNs) =
      (b.clampReduceOnly order).map fun clamped => clamped.stamped tsNs := by
    rw [← clampReduceOnly_stamped, clampReduceOnly_eq, clampReduceOnly_eq, h.net]
  unfold Orderbook.submission
  rw [halign, hclamp]
  cases b.alignmentFailure order with
  | some reason => exact congrArg (Submission.mk [] (.failed reason)) h.exchange
  | none =>
    cases b.clampReduceOnly order with
    | none => exact congrArg (Submission.mk [] (.failed .reduceOnly)) h.exchange
    | some =>
      dsimp only [Option.map]
      rw [hst.walkFits_eq hsize, hst'.walkFits_eq hsize', ← fillable_congr h.exchange]
      exact submitIf_congr h.exchange tsNs _

end Orderbook

end Rsx.Book
