import Rsx.Book.Guarantees

/-!
# Changes of the tick size

`update_config` changes the tick and lot size that admit an order; the compression map keeps the
tick size it was built with until the next recenter.  The book stays sound as long as every tick
size is a multiple of the one the map in force was built with.
-/

namespace Rsx.Book

open PriceTime Exchange

inductive ConfigCall
  | call (c : Call)
  | updateConfig (config : BookConfig)

namespace Orderbook

variable {b b' : Orderbook} {q : Nat → List Nat} {free : List Nat} {config : BookConfig}
  {capacity : Nat} {midPrice : Int} {calls : List ConfigCall} {order clamped : IncomingOrder}

def configCall (b : Orderbook) : ConfigCall → Option Orderbook
  | .call c => b.call c
  | .updateConfig config => some (b.updateConfig config)

/-- The call stays within the machine limits; a new tick size is a multiple of the map's, and a map
is built only when every resting price is a multiple of the tick size in force. -/
def TickFits (b : Orderbook) : ConfigCall → Prop
  | .call (.recenterNow newMid) =>
    b.Fits (.recenterNow newMid) ∧ ∀ o ∈ b.resting, b.config.tickSize ∣ o.price
  | .call c => b.Fits c
  | .updateConfig config =>
    0 < config.tickSize ∧ 0 < config.lotSize ∧ b.compression.tickSize ∣ config.tickSize

instance (b : Orderbook) : ∀ c, Decidable (b.TickFits c)
  | .call (.recenterNow _) => inferInstanceAs (Decidable (_ ∧ _))
  | .call (.newOrder order) => inferInstanceAs (Decidable (b.Fits (.newOrder order)))
  | .call (.cancelOrderChecked ..) => .isTrue trivial
  | .updateConfig _ => inferInstanceAs (Decidable (_ ∧ _))

/-- No maker that the order could still trade with is better than one it was filled against. -/
def RespectsPriority (order : IncomingOrder) (b' : Orderbook) : Prop :=
  ∀ f ∈ b'.eventBuf.filterMap Event.fill?, ∀ o ∈ b'.exchange.orders order.side.opposite,
    order.side.within o.price order.price → ¬ order.side.opposite.improves o.price f.price

theorem Shows.respectsPriority {fits : Bool}
    (h : Shows (b.exchange.submitIf order fits) b') : RespectsPriority order b' := by
  intro f hf o ho hwithin himproves
  have hmem := h.fills.mem_iff.1 hf
  rw [h.book] at ho
  unfold submitIf at hmem ho
  split_ifs at hmem ho
  · exact absurd hmem List.not_mem_nil
  · exact absurd hmem List.not_mem_nil
  · rw [fills_trade] at hmem
    obtain ⟨_, hfill, rfl⟩ := List.mem_map.1 hmem
    have hle := fills_le_rest_trade hfill (mem_rest_of_mem_trade ho hwithin)
    exact absurd (Side.improves_iff.1 himproves) (not_lt.2 hle)

theorem Steady.respectsPriority (h : Steady b) (hfresh : b.FreshFits order)
    (hreg : b.compression.Regular order.price) (hrun : b.processNewOrder order = some b') :
    RespectsPriority order b' := by
  obtain ⟨⟨_, _, hs⟩, hfits⟩ := h
  rcases processNewOrder_cases hs hfits hfresh hreg hrun with
    ⟨-, _, rfl⟩ | ⟨_, ha, hsettled⟩
  · exact fun f hf => absurd hf List.not_mem_nil
  · have hpriority := Shows.respectsPriority (b := b) hsettled.shows
    rw [ha.eq_setRemaining.1] at hpriority
    exact hpriority

theorem Steady.configCall (h : Steady b) {c : ConfigCall} (hfits : b.TickFits c)
    (hrun : b.configCall c = some b') : Steady b' := by
  cases c with
  | call c =>
    cases c with
    | newOrder => exact (h.processNewOrder hfits.1 hfits.2 hrun).1
    | cancelOrderChecked handle userId orderIdHi orderIdLo =>
      cases hrun
      exact (h.cancelOrderChecked handle userId orderIdHi orderIdLo).1
    | recenterNow => exact (h.recenterNow hfits.1.1 hfits.1.2 hfits.2 hrun).1
  | updateConfig =>
    cases hrun
    obtain ⟨⟨q, free, hs⟩, htotal⟩ := h
    refine ⟨⟨q, free, ⟨hs.queued.congr rfl rfl rfl rfl, hs.exact, hs.asc, hs.placed, hs.tracks⟩,
      hfits.2.2, hs.uncrossed⟩, htotal⟩

/-- **Tick-size changes keep the book sound.**  As long as every tick size is a multiple of the one
the map in force was built with, the best prices stay exact, the book stays uncrossed, and no order
trades past a better maker. -/
theorem sound_of_tickChange (hcap : capacity ≤ NONE)
    (hsized : CompressionMap.WellSized midPrice config.tickSize)
    (hcalls : Along configCall TickFits (Orderbook.new config capacity midPrice) calls)
    (hrun : run configCall (Orderbook.new config capacity midPrice) calls = some b) :
    (∀ s, ExactBest b s) ∧ b.exchange.Uncrossed ∧
      ∀ order b', b.TickFits (.call (.newOrder order)) → b.processNewOrder order = some b' →
        RespectsPriority order b' := by
  have hsteady : Steady b := run_invariant (fun h hfits hstep => h.configCall hfits hstep)
    (live_new hsized hcap).toSteady hcalls hrun
  obtain ⟨_, _, hs⟩ := hsteady.sound
  exact ⟨hs.exactBest, hs.uncrossed, fun order b' hfits hrun' =>
    hsteady.respectsPriority hfits.1 hfits.2 hrun'⟩

/-- The tick size grows from 10 to 20 while an ask at a multiple of 20 rests. -/
theorem sound_of_tickChange_coarser :
    let ask : IncomingOrder :=
      { price := 50020, qty := 2, remainingQty := 2, side := .sell, tif := .gtc, userId := 1 }
    let buy : IncomingOrder :=
      { price := 50040, qty := 1, remainingQty := 1, side := .buy, tif := .ioc, userId := 2 }
    ∃ b b', run configCall (Orderbook.new ⟨1, 10, 1⟩ 4 50000)
        [.call (.newOrder ask), .updateConfig ⟨1, 20, 1⟩, .call (.recenterNow 50100)] = some b ∧
      b.processNewOrder buy = some b' ∧
      b'.eventBuf.filterMap Event.fill? = [⟨1, 0, 0, 50020, 1⟩] ∧ RespectsPriority buy b' := by
  intro ask buy
  simp only [exists_and_left]
  refine exists_run (P := fun b => b.TickFits (.call (.newOrder buy)) ∧
    ∃ b', b.processNewOrder buy = some b' ∧
      b'.eventBuf.filterMap Event.fill? = [⟨1, 0, 0, 50020, 1⟩]) (by decide +kernel) ?_
  rintro b hrun ⟨hfits, b', hrun', hfill⟩
  exact ⟨b', hrun', hfill,
    (sound_of_tickChange (by decide) (by decide +kernel) (by decide +kernel) hrun).2.2 buy b' hfits
      hrun'⟩

/-- The tick size shrinks from 10 to 1, and the asks at 50 009 and 50 001 share a zone-0 slot: the
buy trades at 50 009 while the other one rests. -/
theorem tickChange_fails_finer :
    let ask : Int → Nat → IncomingOrder := fun price id =>
      { price := min price 50009, qty := 1, remainingQty := 1, side := .sell, tif := .gtc
        userId := id, orderIdLo := id, priceFits := (min_le_right _ _).trans (by decide) }
    let buy : IncomingOrder :=
      { price := 50009, qty := 1, remainingQty := 1, side := .buy, tif := .ioc, userId := 3 }
    ((run configCall (Orderbook.new ⟨1, 10, 1⟩ 4 50000)
        [.updateConfig ⟨1, 1, 1⟩, .call (.newOrder (ask 50009 1)),
          .call (.newOrder (ask 50001 2))]).bind fun b => (b.processNewOrder buy).map fun b' =>
      (b'.eventBuf.filterMap Event.fill?, (b'.exchange.orders .sell).map Resting.price)) =
      some ([⟨1, 0, 1, 50009, 1⟩], [50001]) := by
  decide +kernel

end Orderbook

end Rsx.Book
