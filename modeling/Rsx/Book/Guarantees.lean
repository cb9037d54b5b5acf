import Rsx.Book.Proof.Run

/-!
# What the book guarantees

For every book reached from an empty one within the machine limits: price-time priority, exact best
prices, fill-or-kill orders that fill completely or not at all, and no crossed prices.  Outside the
limits each of them fails; the runs that show it follow the theorems.
-/

namespace Rsx.Book

open PriceTime HasQty Buckets List CompressionMap Orderbook Exchange FillReport

namespace Orderbook

variable {b b' : Orderbook} {q : Nat → List Nat} {free : List Nat} {config : BookConfig}
  {capacity : Nat} {midPrice : Int} {calls : List Call} {order clamped : IncomingOrder}

/-! ## Price-time priority -/

/-- The events report the fills and the end of a submission, and its orders rest afterwards. -/
structure Shows (sub : Submission) (b' : Orderbook) : Prop where
  fills : (b'.eventBuf.filterMap Event.fill?).Perm (sub.fills.map of)
  ending : b'.eventBuf.filterMap Event.ending? = [sub.ending]
  book : b'.exchange = sub.book

theorem filterMap_fillEvents (taker : IncomingOrder) {fills : List (Entry × Int)}
    (hhandles : ∀ f ∈ fills, f.1.handle ≠ NONE) :
    (fills.flatMap (fillEvents taker)).filterMap Event.fill? =
        (fills.map fun x => (x.1.order, x.2)).map of ∧
      (fills.flatMap (fillEvents taker)).filterMap Event.ending? = [] := by
  induction fills with
  | nil => exact ⟨rfl, rfl⟩
  | cons f fills ih =>
    obtain ⟨ihFill, ihEnding⟩ := ih fun f' hf' => hhandles f' (mem_cons_of_mem _ hf')
    have hhandle := hhandles f mem_cons_self
    have hone : (fillEvents taker f).filterMap Event.fill? = [of (f.1.order, f.2)] ∧
        (fillEvents taker f).filterMap Event.ending? = [] := by
      unfold fillEvents filledEvent fillEvent
      split_ifs
      · simp [Event.fill?, Event.ending?, of, hhandle]
      · simp [Event.fill?, Event.ending?, of]
    rw [flatMap_cons, filterMap_append, filterMap_append, ihFill, ihEnding, hone.1, hone.2]
    exact ⟨rfl, rfl⟩

theorem Settled.shows {sub : Submission} (h : Settled order b sub b') : Shows sub b' := by
  obtain ⟨_, hrep⟩ := h.report
  obtain ⟨_, tail, hevents, hending, hfill, htail⟩ := hrep.events
  obtain ⟨hfills, hendings⟩ := filterMap_fillEvents order hrep.handles
  have htailFill : tail.filterMap Event.fill? = [] :=
    filterMap_eq_nil_iff.2 fun e' he' => (htail e' he').2
  have htailEnding : tail.filterMap Event.ending? = [] :=
    filterMap_eq_nil_iff.2 fun e' he' => (htail e' he').1
  refine ⟨?_, ?_, h.exchange⟩
  · rw [hevents, filterMap_append, filterMap_cons_none hfill, htailFill, append_nil, hfills]
    exact hrep.perm.map _
  · rw [hevents, filterMap_append, filterMap_cons_some hending, htailEnding, hendings, nil_append]

structure WideLive (config : BookConfig) (capacity : Nat) (b : Orderbook) : Prop where
  live : Live b
  wide : b.compression.Wide
  config_eq : b.config = config
  capacity_eq : b.orders.capacity = capacity

theorem wideLive_new (hsized : CompressionMap.WellSized midPrice config.tickSize)
    (hwide : (CompressionMap.new midPrice config.tickSize).Wide) (hcap : capacity ≤ NONE) :
    WideLive config capacity (Orderbook.new config capacity midPrice) :=
  ⟨live_new hsized hcap, hwide, rfl, rfl⟩

theorem WideLive.regular (h : WideLive config capacity b) (p : Int) : b.compression.Regular p := by
  obtain ⟨_, _, hs⟩ := h.live.sound
  exact hs.exact.regular_of_wide h.wide p

theorem WideLive.fits (h : WideLive config capacity b) {c : Call} (hfits : b.WideFits c) :
    b.Fits c := by
  cases c with
  | newOrder order => exact ⟨hfits, h.regular order.price⟩
  | cancelOrderChecked => exact trivial
  | recenterNow => exact ⟨hfits.1, fun o _ => hfits.1.exact.regular_of_wide hfits.2 o.price⟩

theorem WideLive.call (h : WideLive config capacity b) {c : Call} (hfits : b.WideFits c)
    (hrun : b.call c = some b') :
    WideLive config capacity b' ∧ NaiveCall b b.exchange c b'.exchange := by
  have hcalled := h.live.call (h.fits hfits) hrun
  refine ⟨⟨hcalled.live, ?_, hcalled.config.trans h.config_eq,
    hcalled.capacity.trans h.capacity_eq⟩, hcalled.naive⟩
  rw [hcalled.compression]
  cases c with
  | newOrder | cancelOrderChecked => exact h.wide
  | recenterNow => exact hfits.2

theorem WideLive.of_run (hcap : capacity ≤ NONE)
    (hsized : CompressionMap.WellSized midPrice config.tickSize)
    (hwide : (CompressionMap.new midPrice config.tickSize).Wide)
    (hcalls : Along Orderbook.call WideFits (Orderbook.new config capacity midPrice) calls)
    (hrun : run Orderbook.call (Orderbook.new config capacity midPrice) calls = some b) :
    WideLive config capacity b :=
  run_invariant (fun h hfits hstep => (h.call hfits hstep).1)
    (wideLive_new hsized hwide hcap) hcalls hrun

/-- The naive exchange goes through the calls beside the book, from `x` to `x'`. -/
def NaiveRun : Orderbook → Exchange → List Call → Exchange → Prop
  | _, x, [], x' => x' = x
  | b, x, c :: calls, x' =>
    ∃ b₁ x₁, b.call c = some b₁ ∧ NaiveCall b x c x₁ ∧ NaiveRun b₁ x₁ calls x'

/-- The orders that rest in the book are those of the naive exchange, in its order. -/
theorem WideLive.naiveRun (h : WideLive config capacity b)
    (hcalls : Along Orderbook.call WideFits b calls)
    (hrun : run Orderbook.call b calls = some b') : NaiveRun b b.exchange calls b'.exchange := by
  induction calls generalizing b with
  | nil =>
    cases hrun
    exact rfl
  | cons c calls ih =>
    obtain ⟨b₁, hcall, hrest⟩ := Option.bind_eq_some_iff.1 hrun
    obtain ⟨hlive, hnaive⟩ := h.call hcalls.1 hcall
    exact ⟨b₁, b₁.exchange, hcall, hnaive, ih hlive (hcalls.2 b₁ hcall) hrest⟩

/-- **Price-time priority.**  A naive exchange that is empty when the book is and goes through the
same calls within the limits comes to hold the orders of the book, and there an order that is not
fill-or-kill has the effect it has in the naive exchange, unless its rest finds no room in the
slab. -/
theorem processNewOrder_priceTime (hcap : capacity ≤ NONE)
    (hsized : CompressionMap.WellSized midPrice config.tickSize)
    (hwide : (CompressionMap.new midPrice config.tickSize).Wide)
    (hcalls : Along Orderbook.call WideFits (Orderbook.new config capacity midPrice) calls)
    (hrun : run Orderbook.call (Orderbook.new config capacity midPrice) calls = some b)
    (ha : Accepted b order clamped) (htif : order.tif ≠ .fok)
    (hsum : b.exchange.totalQty + order.qty ≤ i64Max) :
    ∃ x, NaiveRun (Orderbook.new config capacity midPrice) Exchange.empty calls x ∧
      x = b.exchange ∧
      ((x.submit clamped).book.size ≤ capacity →
        ∃ b', b.processNewOrder order = some b' ∧ Shows (x.submit clamped) b') ∧
      (capacity < (x.submit clamped).book.size → b.processNewOrder order = none) := by
  have hnew := wideLive_new hsized hwide hcap
  have hnaive := hnew.naiveRun hcalls hrun
  rw [exchange_new hsized hcap] at hnaive
  have hlive := WideLive.of_run hcap hsized hwide hcalls hrun
  obtain ⟨_, _, hs⟩ := hlive.live.sound
  have htif' : clamped.tif ≠ .fok := by
    rw [ha.eq_setRemaining.1]
    exact htif
  obtain ⟨hok, hfull⟩ := processNewOrder_spec hs ha (hlive.regular order.price) hsum
    (b.exchange.fillable clamped) fun h => absurd h htif'
  rw [hlive.capacity_eq] at hok hfull
  refine ⟨b.exchange, hnaive, rfl, fun hsize => ?_, hfull⟩
  obtain ⟨b', hrun', hsettled⟩ := hok hsize
  exact ⟨b', hrun', hsettled.shows⟩

def sellOf (price qty : Int) (id : Nat) : IncomingOrder where
  price := min price 5010
  qty := qty
  remainingQty := qty
  side := .sell
  tif := .gtc
  userId := id
  orderIdLo := id
  priceFits := (min_le_right _ _).trans (by decide)

/-- The first of three sells at one price is cancelled and the book recentered before a buy takes a
better sell and the two that are left, in the order of their arrival. -/
theorem processNewOrder_priceTime_recentered :
    let calls : List Call := [.newOrder (sellOf 5010 3 1), .newOrder (sellOf 5010 2 2),
      .newOrder (sellOf 5005 1 3), .newOrder (sellOf 5010 4 4), .cancelOrderChecked 0 1 0 1,
      .recenterNow 5200]
    let buy : IncomingOrder :=
      { price := 5010, qty := 6, remainingQty := 6, side := .buy, tif := .ioc, userId := 5 }
    ∃ b b' x, run Orderbook.call (Orderbook.new ⟨1, 1, 1⟩ 8 5000) calls = some b ∧
      NaiveRun (Orderbook.new ⟨1, 1, 1⟩ 8 5000) Exchange.empty calls x ∧
      b.processNewOrder buy = some b' ∧ Shows (x.submit buy) b' ∧
      (x.submit buy).fills.map of =
        [⟨3, 0, 3, 5005, 1⟩, ⟨2, 0, 2, 5010, 2⟩, ⟨4, 0, 4, 5010, 3⟩] := by
  intro calls buy
  have hstart : ∃ b ∈ run Orderbook.call (Orderbook.new ⟨1, 1, 1⟩ 8 5000) calls,
      b.alignmentFailure buy = none ∧ b.clampReduceOnly buy = some buy ∧
      b.exchange.totalQty + buy.qty ≤ i64Max ∧ (b.exchange.submit buy).book.size ≤ 8 ∧
      (b.exchange.submit buy).fills.map of =
        [⟨3, 0, 3, 5005, 1⟩, ⟨2, 0, 2, 5010, 2⟩, ⟨4, 0, 4, 5010, 3⟩] := by
    decide +kernel
  obtain ⟨b, hrun, haligned, hclamp, hsum, hsize, hfills⟩ := hstart
  obtain ⟨_, hnaive, rfl, hok, -⟩ := processNewOrder_priceTime (by decide) (by decide +kernel)
    (by decide +kernel) (by decide +kernel) hrun ⟨rfl, haligned, hclamp⟩ (by decide) hsum
  obtain ⟨b', hrun', hshows⟩ := hok hsize
  exact ⟨b, b', _, hrun, hnaive, hrun', hshows, hfills⟩

/-- Around this mid price zone 0 has `2^32 + 1000` slots before the cast to `u32` and 1000 after it.
Two sells of zone 0 share its last slot, and the buy takes the one that arrived first, at the worse
price. -/
theorem priceTime_fails_truncated :
    let far : IncomingOrder :=
      { price := 429496729610700, qty := 1, remainingQty := 1, side := .sell, tif := .gtc
        userId := 1, orderIdLo := 1 }
    let near : IncomingOrder :=
      { price := 429496729610600, qty := 1, remainingQty := 1, side := .sell, tif := .gtc
        userId := 2, orderIdLo := 2 }
    let buy : IncomingOrder :=
      { price := 429496729610700, qty := 1, remainingQty := 1, side := .buy, tif := .ioc
        userId := 3, orderIdLo := 3 }
    let b₀ := Orderbook.new ⟨1, 1, 1⟩ 4 429496729610000
    let calls : List Call := [.newOrder far, .newOrder near]
    (CompressionMap.new 429496729610000 1).Wide ∧ Along Orderbook.call WideFits b₀ calls ∧
    ((run Orderbook.call b₀ calls).bind fun b => (b.processNewOrder buy).map fun b' =>
      (b.alignmentFailure buy, b.clampReduceOnly buy, b'.eventBuf.filterMap Event.fill?,
        (b.exchange.submit buy).fills.map FillReport.of)) =
      some (none, some buy, [⟨1, 0, 1, 429496729610700, 1⟩], [⟨2, 0, 2, 429496729610600, 1⟩]) := by
  decide +kernel

/-! ## Best prices -/

/-- The cached best tick and price of a side, the aggregate at them, and the scan are exact. -/
structure ExactBest (b : Orderbook) (s : Side) : Prop where
  none_iff : b.bestTick s = NONE ↔ b.exchange.orders s = []
  scan : b.scanNext s = b.bestTick s
  best : ∀ o ∈ b.exchange.orders s, ¬ s.improves o.price (b.bestPx s)
  attained : b.exchange.orders s ≠ [] → (∃ o ∈ b.exchange.orders s, o.price = b.bestPx s) ∧
      (∃ slot ∈ b.levelOrders (b.scanNext s), slot.side = s ∧ slot.price = b.bestPx s) ∧
      b.topAt s (b.bestTick s) = (b.bestPx s, b.exchange.qtyAt s (b.bestPx s))

theorem Queued.exists_entry (hq : Queued b q free) {s : Side} {o : Resting}
    (ho : o ∈ b.exchange.orders s) : ∃ t, ∃ e ∈ b.view q t, e.order = o ∧ e.order.side = s := by
  obtain ⟨hmem, hside⟩ := mem_filter.1 (mem_arrange.1 ho)
  obtain ⟨t, e, he, rfl⟩ := hq.mem_resting.1 hmem
  exact ⟨t, e, he, rfl, of_decide_eq_true hside⟩

theorem Standing.qtyAt_eq (hst : Standing b q free) {t : Nat} {e : Entry} (he : e ∈ b.view q t) :
    b.exchange.qtyAt e.order.side e.order.price =
      total ((b.view q t).filter (atPrice e.order.side e.order.price)) := by
  have hat := hst.placed t e he
  have hlt : t < b.compression.totalSlots := by
    rw [← hat.index]
    exact hst.exact.priceToIndex_lt _
  have honly : ∀ u, u ≠ t → ∀ x ∈ b.view q u, ¬ atPrice e.order.side e.order.price x := by
    intro u hu x hx hatx
    refine hu ?_
    rw [← (hst.placed u x hx).index, (of_decide_eq_true hatx).2]
    exact hat.index
  unfold qtyAt
  rw [hst.queued.filter_orders, entries, filter_contents hlt honly, total_map_order]

theorem Sound.exactBest (hs : Sound b q free) (s : Side) : ExactBest b s := by
  rcases hs.tracks s with ⟨hnone, hpx, hempty⟩ | ⟨e, hbest, hpx⟩
  · have hnil : b.exchange.orders s = [] := by
      rw [eq_nil_iff_forall_not_mem]
      intro o ho
      obtain ⟨t, e, he, -, hside⟩ := hs.queued.exists_entry ho
      exact hempty t e he hside
    refine ⟨⟨fun _ => hnil, fun _ => hnone⟩, ?_, ?_, fun hne => absurd hnil hne⟩
    · rw [hs.queued.scanNext_of_empty hs.asc hempty, hnone]
    · rw [hnil]
      exact fun o ho => absurd ho not_mem_nil
  · have hscan := hs.queued.scanNext_of_best hs.exact hs.asc hs.placed hbest
    have hmem : e.order ∈ b.exchange.orders s := hbest.side ▸ hs.queued.mem_orders hbest.mem
    obtain ⟨hprice, hqty⟩ := hs.queued.topAt_of_best hs.exact hs.placed hbest
    refine ⟨⟨fun h => absurd h (hs.ne_none hbest), fun h => ?_⟩, hscan, ?_, fun _ => ⟨?_, ?_, ?_⟩⟩
    · rw [h] at hmem
      exact absurd hmem not_mem_nil
    · intro o ho himproves
      obtain ⟨t, e', he', rfl, hside⟩ := hs.queued.exists_entry ho
      rw [hpx, Side.improves_iff] at himproves
      exact absurd (hbest.best t e' he' hside) (not_le.2 himproves)
    · exact ⟨e.order, hmem, hpx.symm⟩
    · obtain ⟨h, hh, rfl⟩ := mem_map.1 hbest.mem
      rw [hscan, hs.queued.repr.levelOrders_eq]
      exact ⟨b.slot h, mem_map_of_mem hh, hbest.side, hpx.symm⟩
    · have hone : ∀ e' ∈ b.view q (b.bestTick s), e'.order.price = e.order.price →
          e'.order.side = s := fun e' he' hp =>
        (hs.one_side he' hbest.mem hp).trans hbest.side
      have hqtyAt := hs.qtyAt_eq hbest.mem
      rw [hbest.side] at hqtyAt
      rw [hpx, hqtyAt, ← hqty hone, ← hprice]

/-- **Exact best prices.**  In every book reached within the limits the best tick and price of each
side are those of its best resting orders, the scan finds their slot, and `current_bbo` reports
their quantity. -/
theorem bestPrices_exact (hcap : capacity ≤ NONE)
    (hsized : CompressionMap.WellSized midPrice config.tickSize)
    (hcalls : Along Orderbook.call Fits (Orderbook.new config capacity midPrice) calls)
    (hrun : run Orderbook.call (Orderbook.new config capacity midPrice) calls = some b) :
    (∀ s, ExactBest b s) ∧ (b.exchange.orders .buy ≠ [] → b.currentBbo.bidPx = b.bestPx .buy ∧
        b.currentBbo.bidQty = b.exchange.qtyAt .buy (b.bestPx .buy)) ∧
      (b.exchange.orders .sell ≠ [] → b.currentBbo.askPx = b.bestPx .sell ∧
        b.currentBbo.askQty = b.exchange.qtyAt .sell (b.bestPx .sell)) := by
  have hlive : Live b := run_invariant (fun h hfits hstep => (h.call hfits hstep).live)
    (live_new hsized hcap) hcalls hrun
  obtain ⟨_, _, hs⟩ := hlive.sound
  refine ⟨hs.exactBest, fun hne => ?_, fun hne => ?_⟩
  · have htop := ((hs.exactBest .buy).attained hne).2.2
    exact ⟨congrArg Prod.fst htop, congrArg Prod.snd htop⟩
  · have htop := ((hs.exactBest .sell).attained hne).2.2
    exact ⟨congrArg Prod.fst htop, congrArg Prod.snd htop⟩

/-- Two bids at one price and a worse one, after a recenter. -/
theorem bestPrices_exact_recentered :
    let bid : Int → IncomingOrder := fun price =>
      { price := min price 5000, qty := 2, remainingQty := 2, side := .buy, tif := .gtc, userId := 1
        priceFits := (min_le_right _ _).trans (by decide) }
    ∃ b, run Orderbook.call (Orderbook.new ⟨1, 1, 1⟩ 4 5000)
        [.newOrder (bid 4990), .newOrder (bid 4000), .recenterNow 4800, .newOrder (bid 4990)] =
          some b ∧
      b.currentBbo.bidPx = 4990 ∧ b.currentBbo.bidQty = 4 ∧ ∀ s, ExactBest b s := by
  intro bid
  refine exists_run (P := fun b => b.exchange.orders .buy ≠ [] ∧ b.bestPx .buy = 4990 ∧
    b.exchange.qtyAt .buy 4990 = 4) (by decide +kernel) ?_
  rintro b hrun ⟨hne, hpx, hqty⟩
  obtain ⟨hexact, hbid, -⟩ := bestPrices_exact (by decide) (by decide +kernel)
    (by decide +kernel) hrun
  obtain ⟨hbidPx, hbidQty⟩ := hbid hne
  rw [hpx] at hbidPx hbidQty
  exact ⟨hbidPx, hbidQty.trans hqty, hexact⟩

/-- With a tick of 100 around 50 000, zone 3 has no slot: a bid of that zone goes to slot 61, the
far ask slot of zone 4, which the scan for bids visits first.  Once the best bid is cancelled the
book takes the bid at 30 000 for the best, although one at 49 800 rests. -/
theorem bestPrices_fail_narrow :
    let bid : Int → Nat → IncomingOrder := fun price id =>
      { price := min price 50000, qty := 1, remainingQty := 1, side := .buy, tif := .gtc
        userId := id, orderIdLo := id, priceFits := (min_le_right _ _).trans (by decide) }
    ((run Orderbook.call (Orderbook.new ⟨1, 100, 1⟩ 4 50000)
        [.newOrder (bid 30000 1), .newOrder (bid 49900 2), .newOrder (bid 49800 3),
          .cancelOrderChecked 1 2 0 2]).map fun b =>
      (b.bestPx .buy, b.scanNextBid, b.currentBbo.bidPx,
        (b.exchange.orders .buy).map Resting.price)) =
      some (30000, 61, 30000, [49800, 30000]) := by
  decide +kernel

/-! ## Fill-or-kill -/

/-- A fill-or-kill order leaves the book as it is and is rejected, which happens only when the
makers it may consume hold too little; or it fills its whole quantity. -/
def FillsOrKills (b : Orderbook) (order clamped : IncomingOrder) : Prop :=
  (b.processNewOrder order = some { b with eventBuf :=
      [.orderFailed clamped.userId .fillOrKill clamped.orderIdHi clamped.orderIdLo] } ∧
    total ((b.exchange.makers clamped).take maxMakersPerOrder) < clamped.remainingQty) ∨
  ∃ b', b.processNewOrder order = some b' ∧
    ((b'.eventBuf.filterMap Event.fill?).map qty).sum = clamped.remainingQty ∧
    b'.eventBuf.filterMap Event.ending? = [.done .filled clamped.remainingQty 0]

theorem WideLive.processNewOrder_fok (h : WideLive config capacity b)
    (ha : Accepted b order clamped) (htif : order.tif = .fok)
    (hsum : b.exchange.totalQty + order.qty ≤ i64Max) :
    if clamped.postOnly ∧ b.exchange.makers clamped ≠ [] then
      b.processNewOrder order = some { b with eventBuf :=
        [takerDone clamped .postOnly 0 clamped.remainingQty] }
    else if b.walkFits clamped then
      ∃ b', b.processNewOrder order = some b' ∧ Shows (b.exchange.trade clamped) b'
    else
      b.processNewOrder order = some { b with eventBuf :=
        [.orderFailed clamped.userId .fillOrKill clamped.orderIdHi clamped.orderIdLo] } := by
  obtain ⟨_, _, hs⟩ := h.live.sound
  obtain ⟨hclamped, hqty, -⟩ := ha.eq_setRemaining
  have htif' : clamped.tif = .fok := by
    rw [hclamped]
    exact htif
  have hcheck := hs.canFillFully_eq hqty h.live.fits
  have haccepted := processNewOrder_checked ha.aligned ha.clamp
  split_ifs with hpost hfits
  · have hcrosses := (hs.bestCrosses_iff clamped).2 hpost.2
    rw [haccepted]
    simp only [hpost.1, hcrosses, Bool.and_self, if_true]
    rfl
  · obtain ⟨hok, -⟩ := processNewOrder_spec hs ha (h.regular order.price) hsum _ fun _ => hcheck
    have hsub : b.exchange.submitIf clamped (b.walkFits clamped) = b.exchange.trade clamped := by
      unfold submitIf
      rw [if_neg hpost, if_neg (fun hnot => hnot.2 hfits)]
    have hbook : (b.exchange.trade clamped).book = b.exchange.matched clamped := by
      unfold trade
      simp only [htif']
      split_ifs <;> rfl
    have hsize : (b.exchange.trade clamped).book.size ≤ b.orders.capacity := by
      rw [hbook]
      refine (size_matched_le _ _).trans ?_
      rw [hs.queued.size_exchange]
      exact hs.queued.length_entries_le
    rw [hsub] at hok
    obtain ⟨b', hrun, hsettled⟩ := hok hsize
    exact ⟨b', hrun, hsettled.shows⟩
  · have hcrosses : ¬ (clamped.postOnly && b.bestCrosses clamped) = true := by
      rw [Bool.and_eq_true, hs.bestCrosses_iff]
      exact hpost
    rw [haccepted]
    simp only [if_neg hcrosses, htif', if_true, hcheck, Option.bind_eq_bind, Option.bind_some,
      Bool.eq_false_iff.2 hfits, Bool.false_eq_true, if_false]
    rfl

/-- **Fill-or-kill.**  In every book reached within the limits, a fill-or-kill order fills
completely or not at all, and is rejected only for lack of makers, exactly if it is not turned away
as post-only and the makers its check counts hold its quantity exactly when the makers the match
consumes do. -/
theorem fillsOrKills_iff (hcap : capacity ≤ NONE)
    (hsized : CompressionMap.WellSized midPrice config.tickSize)
    (hwide : (CompressionMap.new midPrice config.tickSize).Wide)
    (hcalls : Along Orderbook.call WideFits (Orderbook.new config capacity midPrice) calls)
    (hrun : run Orderbook.call (Orderbook.new config capacity midPrice) calls = some b)
    (ha : Accepted b order clamped) (htif : order.tif = .fok)
    (hsum : b.exchange.totalQty + order.qty ≤ i64Max) :
    FillsOrKills b order clamped ↔ ¬ (clamped.postOnly ∧ b.exchange.makers clamped ≠ []) ∧
        (clamped.remainingQty ≤ total ((b.walked clamped).take maxMakersPerOrder) ↔
          clamped.remainingQty ≤ total ((b.exchange.makers clamped).take maxMakersPerOrder)) := by
  have hlive := WideLive.of_run hcap hsized hwide hcalls hrun
  obtain ⟨_, _, hs⟩ := hlive.live.sound
  have hqty := ha.eq_setRemaining.2.1
  have hpos := hs.queued.makers_pos clamped
  have hprocess := hlive.processNewOrder_fok ha htif hsum
  have hzero : (b.exchange.consumed clamped).left = 0 ↔
      clamped.remainingQty ≤ total ((b.exchange.makers clamped).take maxMakersPerOrder) :=
    consume_left_eq_zero_iff hqty.le hpos
  have hleft : (b.exchange.consumed clamped).left = clamped.remainingQty -
      ((b.exchange.consumed clamped).fills.map Prod.snd).sum := consume_left ..
  by_cases hpost : clamped.postOnly ∧ b.exchange.makers clamped ≠ []
  · rw [if_pos hpost] at hprocess
    refine ⟨?_, fun h => absurd hpost h.1⟩
    rintro (⟨hfail, -⟩ | ⟨b', hfill, -, hending⟩)
    · have hevents := congrArg eventBuf (Option.some.inj (hprocess.symm.trans hfail))
      simp [takerDone] at hevents
    · obtain rfl := Option.some.inj (hprocess.symm.trans hfill)
      simp [takerDone, Event.ending?] at hending
  · rw [if_neg hpost] at hprocess
    by_cases hfits : b.walkFits clamped = true
    · rw [if_pos hfits] at hprocess
      obtain ⟨b', hrun', hshows⟩ := hprocess
      have hfills := hshows.fills
      rw [Exchange.fills_trade] at hfills
      constructor
      · -- A check that passes wrongly lets the order trade, and something of it is left.
        intro hfk
        refine ⟨hpost, fun _ => ?_, fun _ => of_decide_eq_true hfits⟩
        rw [← hzero]
        rcases hfk with ⟨hfail, -⟩ | ⟨b'', hfill, -, hending⟩
        · obtain rfl := Option.some.inj (hrun'.symm.trans hfail)
          have hnil : (b.exchange.consumed clamped).fills = [] :=
            map_eq_nil_iff.1 hfills.symm.eq_nil
          have hne : b.exchange.makers clamped ≠ [] := by
            intro hmakers
            have hwalked := hs.walked_perm clamped
            rw [hmakers] at hwalked
            have := of_decide_eq_true hfits
            rw [hwalked.eq_nil, take_nil, total_nil] at this
            omega
          have hlt := consume_left_lt (k := maxMakersPerOrder) (by decide) hqty hpos hne
          rw [hnil] at hleft
          simp only [map_nil, sum_nil] at hleft
          exact absurd hlt (by unfold Exchange.consumed at hleft; omega)
        · obtain rfl := Option.some.inj (hrun'.symm.trans hfill)
          rw [hshows.ending] at hending
          have hle := (Exchange.ending_trade_iff _ _).1 (singleton_inj.1 hending)
          exact le_antisymm hle (consume_left_nonneg hqty.le)
      · rintro ⟨-, hiff⟩
        have hfilled := hzero.2 (hiff.1 (of_decide_eq_true hfits))
        refine .inr ⟨b', hrun', ?_, ?_⟩
        · rw [(hfills.map FillReport.qty).sum_eq, map_map]
          have hqtys : FillReport.qty ∘ FillReport.of = Prod.snd := rfl
          rw [hqtys]
          omega
        · rw [hshows.ending, (Exchange.ending_trade_iff _ _).2 hfilled.le]
    · rw [if_neg hfits] at hprocess
      constructor
      · intro hfk
        refine ⟨hpost, fun h => absurd (decide_eq_true h) hfits, fun hfill => ?_⟩
        rcases hfk with ⟨-, _⟩ | ⟨b', hrun', -, hending⟩
        · omega
        · obtain rfl := Option.some.inj (hprocess.symm.trans hrun')
          simp [Event.ending?] at hending
      · rintro ⟨-, hiff⟩
        exact .inl ⟨hprocess, not_le.1 fun h => hfits (decide_eq_true (hiff.2 h))⟩

/-- A fill-or-kill buy of the two sells that rest fills both. -/
theorem fillsOrKills_iff_two :
    let sell : IncomingOrder :=
      { price := 5010, qty := 3, remainingQty := 3, side := .sell, tif := .gtc, userId := 1 }
    let buy : IncomingOrder :=
      { price := 5020, qty := 6, remainingQty := 6, side := .buy, tif := .fok, userId := 2 }
    ∃ b, run Orderbook.call (Orderbook.new ⟨1, 1, 1⟩ 4 5000) [.newOrder sell, .newOrder sell] =
      some b ∧ FillsOrKills b buy buy := by
  intro sell buy
  refine exists_run (P := fun b => b.alignmentFailure buy = none ∧
    b.clampReduceOnly buy = some buy ∧ b.exchange.totalQty + buy.qty ≤ i64Max ∧
    6 ≤ total ((b.walked buy).take maxMakersPerOrder) ∧
    6 ≤ total ((b.exchange.makers buy).take maxMakersPerOrder)) (by decide +kernel) ?_
  rintro b hrun ⟨haligned, hclamp, hsum, hwalked, hmakers⟩
  have hiff := fillsOrKills_iff (by decide) (by decide +kernel) (by decide +kernel)
    (by decide +kernel) hrun ⟨rfl, haligned, hclamp⟩ rfl hsum
  exact hiff.2 ⟨fun h => absurd h.1 (by decide), fun _ => hmakers, fun _ => hwalked⟩

/-- Two sells share a slot of zone 0 whose map was truncated.  The check reads the price of the one
that arrived first, and rejects a buy that the other one would fill. -/
theorem fillOrKill_fails_truncated :
    let far : IncomingOrder :=
      { price := 429496729610700, qty := 1, remainingQty := 1, side := .sell, tif := .gtc
        userId := 1, orderIdLo := 1 }
    let near : IncomingOrder :=
      { price := 429496729610600, qty := 1, remainingQty := 1, side := .sell, tif := .gtc
        userId := 2, orderIdLo := 2 }
    let buy : IncomingOrder :=
      { price := 429496729610600, qty := 1, remainingQty := 1, side := .buy, tif := .fok
        userId := 3, orderIdLo := 3 }
    let b₀ := Orderbook.new ⟨1, 1, 1⟩ 4 429496729610000
    let calls : List Call := [.newOrder far, .newOrder near]
    (CompressionMap.new 429496729610000 1).Wide ∧ Along Orderbook.call WideFits b₀ calls ∧
    ((run Orderbook.call b₀ calls).bind fun b => (b.processNewOrder buy).map fun b' =>
      (b'.eventBuf, total ((b.exchange.makers buy).take maxMakersPerOrder))) =
      some ([.orderFailed 3 .fillOrKill 0 3], 1) := by
  decide +kernel

/-! ## The book is never crossed

The shortcuts of the match for zone-0 slots rely on one price and one side per slot, and that holds
because the book is never crossed and zone 0 has one slot per tick.
-/

/-- Every resting buy is below every resting sell, and the orders of a zone-0 slot have one price
and one side. -/
structure Untangled (b : Orderbook) : Prop where
  uncrossed : b.exchange.Uncrossed
  one_level : ∀ t < b.compression.zoneSlots 0, ∀ slot ∈ b.levelOrders t,
    ∀ slot' ∈ b.levelOrders t, slot.price = slot'.price ∧ slot.side = slot'.side

theorem Sound.untangled (hs : Sound b q free) : Untangled b := by
  refine ⟨hs.uncrossed, fun t ht slot hslot slot' hslot' => ?_⟩
  rw [hs.queued.repr.levelOrders_eq] at hslot hslot'
  obtain ⟨h, hh, rfl⟩ := List.mem_map.1 hslot
  obtain ⟨h', hh', rfl⟩ := List.mem_map.1 hslot'
  have he : b.entry h ∈ b.view q t := List.mem_map_of_mem hh
  have he' : b.entry h' ∈ b.view q t := List.mem_map_of_mem hh'
  have hprice := hs.placed.one_price hs.exact ht he he'
  exact ⟨hprice, hs.one_side he he' hprice⟩

/-- **The book is never crossed.**  This holds in every book reached within the limits, whatever the
mid prices it was recentered to. -/
theorem untangled_of_run (hcap : capacity ≤ NONE)
    (hsized : CompressionMap.WellSized midPrice config.tickSize)
    (hwide : (CompressionMap.new midPrice config.tickSize).Wide)
    (hcalls : Along Orderbook.call WideFits (Orderbook.new config capacity midPrice) calls)
    (hrun : run Orderbook.call (Orderbook.new config capacity midPrice) calls = some b) :
    Untangled b := by
  obtain ⟨_, _, hs⟩ := (WideLive.of_run hcap hsized hwide hcalls hrun).live.sound
  exact hs.untangled

/-- A bid and an ask around a mid price that is no multiple of the tick. -/
theorem untangled_of_run_misaligned :
    let bid : IncomingOrder :=
      { price := 49990, qty := 2, remainingQty := 2, side := .buy, tif := .gtc, userId := 1 }
    let ask : IncomingOrder :=
      { price := 50010, qty := 2, remainingQty := 2, side := .sell, tif := .gtc, userId := 2 }
    ∃ b, run Orderbook.call (Orderbook.new ⟨1, 10, 1⟩ 4 50000)
        [.newOrder bid, .newOrder ask, .recenterNow 50003] = some b ∧
      b.exchange.size = 2 ∧ Untangled b := by
  intro bid ask
  refine exists_run (P := fun b => b.exchange.size = 2) (by decide +kernel) fun b hrun hsize => ?_
  exact ⟨hsize, untangled_of_run (by decide) (by decide +kernel) (by decide +kernel)
    (by decide +kernel) hrun⟩

/-- Around this mid price the cast to `u32` leaves zone 0 with 1000 slots, and the sells at distance
600 and 700 share the last of them. -/
theorem untangled_fails_truncated :
    let sell : Int → Nat → IncomingOrder := fun price id =>
      { price := min price 429496729610700, qty := 1, remainingQty := 1, side := .sell, tif := .gtc
        userId := id, orderIdLo := id, priceFits := (min_le_right _ _).trans (by decide) }
    let b₀ := Orderbook.new ⟨1, 1, 1⟩ 4 429496729610000
    let calls : List Call :=
      [.newOrder (sell 429496729610700 1), .newOrder (sell 429496729610600 2)]
    b₀.compression.Wide ∧ Along Orderbook.call WideFits b₀ calls ∧
      (run Orderbook.call b₀ calls).map (fun b =>
          (decide (999 < b.compression.zoneSlots 0), (b.levelOrders 999).map OrderSlot.price)) =
        some (true, [429496729610700, 429496729610600]) := by
  decide +kernel

end Orderbook

end Rsx.Book
