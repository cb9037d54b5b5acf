import Rsx.Book.Guarantees
import Rsx.Book.Proof.Record

/-!
# The events of one order

An order is reported by its fills, each followed by the `OrderDone` of a maker that it empties, then
by one event that ends it, and then by the best prices if they moved.
-/

namespace Rsx.Book

open Function PriceTime List

namespace Orderbook

variable {b b' : Orderbook} {q : Nat → List Nat} {free : List Nat} {config : BookConfig}
  {capacity : Nat} {midPrice : Int} {calls : List Call} {order effective : IncomingOrder}
  {held : Nat → Option Resting} {fills : List (Entry × Int)} {handle : Nat} {ending : Ending}
  {bbo : Option Bbo} {h : Nat}

def isMakerDone (h : Nat) : Event → Bool
  | .orderDone handle .. => handle = h
  | _ => false

/-- The order that matching works on: what the reduce-only clamp leaves of it. -/
def effectiveOrder (b : Orderbook) (order : IncomingOrder) : IncomingOrder :=
  (b.clampReduceOnly order).getD order

/-- The event contract of one order.  `fills` are made one after the other on the orders resting in
`b`; the events of a fill are its `Fill` and, when it takes all of the maker, the maker's
`OrderDone`. -/
structure Contract (b : Orderbook) (effective : IncomingOrder) (events : List Event)
    (fills : List (Entry × Int)) (handle : Nat) (ending : Ending) (bbo : Option Bbo) : Prop where
  shape : events = fills.flatMap (fillEvents effective) ++
    endEvent effective handle ending :: bbo.toList.map Bbo.event
  drawn : Drawn b.held fills
  terminal : events.filterMap Event.ending? = [ending]
  makerDone : ∀ h ≠ NONE, events.countP (isMakerDone h) =
    if (b.held h).isSome ∧ fills.foldl fillHeld b.held h = none then 1 else 0
  lastFill : ∀ pre fill post, fills = pre ++ fill :: post →
    fill.1.order.remainingQty = fill.2 → ∀ fill' ∈ post, fill'.1.handle ≠ fill.1.handle
  quantity : match ending with
    | .failed _ => fills = []
    | .done _ filled remaining =>
      filled = filledQty fills ∧ filledQty fills + remaining = effective.remainingQty
    | .inserted rest => filledQty fills + rest = effective.remainingQty
  length : events.length ≤ maxEvents

theorem Drawn.of_none (hd : Drawn held fills) (hnone : held h = none) :
    fills.foldl fillHeld held h = none ∧ ∀ fill ∈ fills, fill.1.handle ≠ h := by
  induction fills generalizing held with
  | nil => exact ⟨hnone, by simp⟩
  | cons fill fills ih =>
    obtain ⟨hheld, -, -, -, hrest⟩ := hd
    have hne : fill.1.handle ≠ h := by
      rintro rfl
      rw [hnone] at hheld
      exact absurd hheld (by simp)
    have hnone' : fillHeld held fill h = none := by
      rw [fillHeld, update_of_ne hne.symm, hnone]
    obtain ⟨hfold, hall⟩ := ih hrest hnone'
    exact ⟨hfold, forall_mem_cons.2 ⟨hne, hall⟩⟩

theorem Drawn.drop {fills' : List (Entry × Int)} (hd : Drawn held (fills ++ fills')) :
    Drawn (fills.foldl fillHeld held) fills' := by
  induction fills generalizing held with
  | nil => exact hd
  | cons fill fills ih => exact ih hd.2.2.2.2

theorem Drawn.countP_makerDone (taker : IncomingOrder) (hd : Drawn held fills) (h : Nat) :
    (fills.flatMap (fillEvents taker)).countP (isMakerDone h) =
      if (held h).isSome ∧ fills.foldl fillHeld held h = none then 1 else 0 := by
  induction fills generalizing held with
  | nil =>
    refine (if_neg ?_).symm
    rintro ⟨hsome, hnone⟩
    rw [foldl_nil] at hnone
    rw [hnone] at hsome
    exact absurd hsome (by decide)
  | cons fill fills ih =>
    obtain ⟨hheld, -, -, -, hrest⟩ := hd
    rw [flatMap_cons, countP_append, ih hrest, foldl_cons]
    have hfill : isMakerDone h (fillEvent taker fill) = false := rfl
    by_cases hfull : fill.1.order.remainingQty = fill.2
    · have hevents : fillEvents taker fill = [fillEvent taker fill, filledEvent fill.1] := by
        rw [fillEvents, if_pos hfull]
      have hupdate : fillHeld held fill = update held fill.1.handle none := by
        rw [fillHeld, if_pos hfull]
      rw [hupdate] at hrest ⊢
      rw [hevents, countP_cons_of_neg (by simp [hfill])]
      by_cases hh : fill.1.handle = h
      · -- The maker leaves here and gets no further fill.
        subst hh
        have hnone : update held fill.1.handle none fill.1.handle = none :=
          update_self ..
        have hgone := (hrest.of_none hnone).1
        simp [isMakerDone, filledEvent, hgone, hheld]
      · rw [update_of_ne (Ne.symm hh)]
        simp [isMakerDone, filledEvent, hh]
    · have hevents : fillEvents taker fill = [fillEvent taker fill] := by
        rw [fillEvents, if_neg hfull]
      rw [hevents, countP_singleton, hfill]
      by_cases hh : fill.1.handle = h
      · subst hh
        simp [fillHeld, hfull, hheld]
      · have hsame : fillHeld held fill h = held h := by
          rw [fillHeld, update_of_ne (Ne.symm hh)]
        simp [hsame]

theorem Drawn.handles (hd : Drawn held fills) : ∀ fill ∈ fills, fill.1.handle ≠ NONE := by
  induction fills generalizing held with
  | nil => simp
  | cons fill fills ih => exact forall_mem_cons.2 ⟨hd.2.1, ih hd.2.2.2.2⟩

theorem Drawn.eq_nil (hd : Drawn held fills) (hzero : filledQty fills = 0) : fills = [] := by
  cases fills with
  | nil => rfl
  | cons =>
    have hrest := hd.2.2.2.2.filledQty_nonneg
    have hpos := hd.2.2.1
    rw [filledQty_cons] at hzero
    omega

theorem ending_endEvent (order : IncomingOrder) (handle : Nat) (ending : Ending) :
    (endEvent order handle ending).ending? = some ending := by
  cases ending <;> simp [endEvent, takerDone, Event.ending?]

theorem Recorded.terminal (hr : Recorded effective b fills handle ending bbo b') :
    b'.eventBuf.filterMap Event.ending? = [ending] := by
  have hfills := (filterMap_fillEvents effective hr.drawn.handles).2
  rw [hr.events, filterMap_append, hfills, filterMap_cons, ending_endEvent]
  cases bbo <;> rfl

theorem Recorded.contract (hr : Recorded effective b fills handle ending bbo b')
    (hqty : (∀ reason, ending ≠ .failed reason) → 0 ≤ effective.remainingQty)
    (hfailed : ∀ reason, ending = .failed reason → fills = []) :
    Contract b effective b'.eventBuf fills handle ending bbo := by
  have hcount := hr.count
  refine
    { shape := hr.events
      drawn := hr.drawn
      terminal := hr.terminal
      makerDone := ?_
      lastFill := ?_
      quantity := ?_
      length := ?_ }
  · intro h hne
    have hend : isMakerDone h (endEvent effective handle ending) = false := by
      cases ending <;> simp [endEvent, takerDone, isMakerDone, hne.symm]
    have hbbo : (bbo.toList.map Bbo.event).countP (isMakerDone h) = 0 := by
      cases bbo <;> rfl
    rw [hr.events, countP_append, countP_cons_of_neg (by simp [hend]), hbbo,
      hr.drawn.countP_makerDone, Nat.add_zero]
  · intro pre fill post hsplit hfull
    have hdrop := (hsplit ▸ hr.drawn : Drawn b.held (pre ++ fill :: post)).drop
    refine (hdrop.2.2.2.2.of_none ?_).2
    rw [fillHeld, if_pos hfull, update_self]
  · cases ending with
    | failed reason => exact hfailed reason rfl
    | done =>
      obtain ⟨hfilled, hsum, -⟩ := hr.accounts (hqty (by simp))
      exact ⟨hfilled, hfilled ▸ hsum⟩
    | inserted => exact (hr.accounts (hqty (by simp))).2
  · have hfills := length_fillEvents_le effective fills
    have htail : (bbo.toList.map Bbo.event).length ≤ 1 := by cases bbo <;> simp
    rw [hr.events, length_append, length_cons]
    unfold maxMakersPerOrder maxEvents at *
    omega

theorem Sound.trade_not_failed (hs : Sound b q free)
    (hfits : b.walkFits order = true) (reason : OrderFailureReason) :
    (b.exchange.trade order).ending ≠ .failed reason := by
  intro hending
  have hwalk : order.remainingQty ≤ total ((b.walked order).take maxMakersPerOrder) :=
    of_decide_eq_true hfits
  have hperm := total_perm (hs.walked_perm order)
  have hpos := hs.queued.makers_pos order
  have htake : total ((b.walked order).take maxMakersPerOrder) ≤ total (b.walked order) := by
    conv_rhs => rw [← take_append_drop maxMakersPerOrder (b.walked order), total_append]
    have : 0 ≤ total ((b.walked order).drop maxMakersPerOrder) := total_nonneg fun o ho =>
      hpos o ((hs.walked_perm order).mem_iff.1 (mem_of_mem_drop ho))
    omega
  have hconsume := total_consume maxMakersPerOrder order.remainingQty (b.exchange.makers order)
  have hrest := consume_rest maxMakersPerOrder order.remainingQty (b.exchange.makers order)
  change total (b.exchange.consumed order).rest + _ = _ + (b.exchange.consumed order).left
    at hconsume
  unfold Exchange.trade at hending
  dsimp only at hending
  split_ifs at hending with hleft hlimit
  have hnil : (b.exchange.consumed order).rest = [] := by
    by_contra hne
    exact hlimit ⟨(hrest.resolve_left hne).resolve_right hleft, hne⟩
  rw [hnil, total_nil] at hconsume
  omega

theorem effectiveOrder_eq (b : Orderbook) (order : IncomingOrder) :
    b.effectiveOrder order = order.setRemaining (b.effectiveOrder order).remainingQty := by
  unfold effectiveOrder clampReduceOnly
  split_ifs with hreduce
  · cases hnet : b.users.netQty order.userId with
    | none => rfl
    | some =>
      dsimp only
      split_ifs <;> rfl
  · rfl

theorem Accepted.effectiveOrder (ha : Accepted b order effective) :
    b.effectiveOrder order = effective := by
  rw [Orderbook.effectiveOrder, ha.clamp]
  rfl

theorem WideLive.fills_eq_nil (hlive : WideLive config capacity b)
    (ha : Accepted b order effective) (hsum : b.exchange.totalQty + order.qty ≤ i64Max)
    (hrun : b.processNewOrder order = some b')
    (hr : Recorded effective b fills handle ending bbo b') (reason : OrderFailureReason)
    (hending : ending = .failed reason) : fills = [] := by
  subst hending
  obtain ⟨heff, hqty, -⟩ := ha.eq_setRemaining
  rcases hr.accounts hqty.le with hzero | htif
  · exact hr.drawn.eq_nil hzero
  have hterminal := hr.terminal
  have hprocess := hlive.processNewOrder_fok ha (by rw [← htif, heff]; rfl) hsum
  split_ifs at hprocess with hpost hwalk
  · obtain rfl := Option.some.inj (hprocess.symm.trans hrun)
    exact absurd hterminal (by simp [takerDone, Event.ending?])
  · obtain ⟨_, hrun', hshows⟩ := hprocess
    obtain rfl := Option.some.inj (hrun'.symm.trans hrun)
    obtain ⟨_, _, hs⟩ := hlive.live.sound
    refine absurd ?_ (hs.trade_not_failed hwalk reason)
    exact singleton_inj.1 (hshows.ending.symm.trans hterminal)
  · obtain rfl := Option.some.inj (hprocess.symm.trans hrun)
    have hlength := congrArg List.length hr.events
    cases fills with
    | nil => rfl
    | cons =>
      simp only [flatMap_cons, fillEvents, cons_append, length_cons,
        length_append, length_nil] at hlength
      omega

/-- **The events of an order.**  In a book reached within the limits an order runs out of nothing
but slab slots for its rest, and its events meet the contract. -/
theorem contract_of_run (hcap : capacity ≤ NONE)
    (hsized : CompressionMap.WellSized midPrice config.tickSize)
    (hwide : (CompressionMap.new midPrice config.tickSize).Wide)
    (hcalls : Along Orderbook.call WideFits (Orderbook.new config capacity midPrice) calls)
    (hrun : run Orderbook.call (Orderbook.new config capacity midPrice) calls = some b)
    (hfits : b.FreshFits order) :
    (∀ b', b.processNewOrder order = some b' → ∃ fills handle ending bbo,
      Contract b (b.effectiveOrder order) b'.eventBuf fills handle ending bbo) ∧
    (b.processNewOrder order = none →
      capacity < (b.exchange.submit (b.effectiveOrder order)).book.size) := by
  have hlive := WideLive.of_run hcap hsized hwide hcalls hrun
  obtain ⟨q, _, hs⟩ := hlive.live.sound
  constructor
  · intro b' hrun'
    have hsum : total (b.entries q) + order.remainingQty ≤ i64Max := by
      rw [← hs.queued.totalQty_exchange, hfits.1]
      exact hfits.2
    obtain ⟨-, effective, fills, handle, ending, bbo, hr, hcase⟩ :=
      hs.queued.processNewOrder hsum hrun'
    refine ⟨fills, handle, ending, bbo, ?_⟩
    rcases hcase with ⟨haligned, hclamp⟩ | ⟨rfl, rfl, reason, rfl⟩
    · have ha : Accepted b order effective := ⟨hfits.1, haligned, hclamp⟩
      rw [ha.effectiveOrder]
      exact hr.contract (fun _ => ha.eq_setRemaining.2.1.le)
        (hlive.fills_eq_nil ha hfits.2 hrun' hr)
    · -- The failure names the order, whatever the clamp would leave of it.
      have hr' : Recorded (b.effectiveOrder effective) b [] handle (.failed reason) bbo b' := by
        rw [effectiveOrder_eq]
        exact ⟨hr.frame, hr.drawn, hr.count, hr.events, hr.users, hr.held, fun _ => Or.inl rfl,
          hr.fresh, fun _ h => absurd h not_mem_nil, id⟩
      exact hr'.contract (fun h => absurd rfl (h reason)) fun _ _ => rfl
  · intro hnone
    by_contra hsize
    rcases checks_cases b order with ⟨reason, hrejected⟩ | ⟨clamped, haligned, hclamp⟩
    · rw [processNewOrder_rejected hrejected] at hnone
      exact absurd hnone (by simp)
    · have ha : Accepted b order clamped := ⟨hfits.1, haligned, hclamp⟩
      rw [ha.effectiveOrder] at hsize
      by_cases htif : order.tif = .fok
      · have hprocess := hlive.processNewOrder_fok ha htif hfits.2
        rw [hnone] at hprocess
        split_ifs at hprocess
        obtain ⟨b', hrun', -⟩ := hprocess
        exact absurd hrun' (by simp)
      · have htif' : clamped.tif ≠ .fok := by
          rw [ha.eq_setRemaining.1]
          exact htif
        obtain ⟨hok, -⟩ := processNewOrder_spec hs ha (hlive.regular order.price) hfits.2
          (b.exchange.fillable clamped) fun h => absurd h htif'
        rw [hlive.capacity_eq] at hok
        obtain ⟨_, hrun', -⟩ := hok (not_lt.1 hsize)
        exact absurd (hnone.symm.trans hrun') (by simp)

/-- A buy that empties one sell, takes a part of the next and is filled. -/
theorem contract_of_run_filled :
    let sell : Int → Nat → IncomingOrder := fun price id =>
      { price := min price 5020, qty := 3, remainingQty := 3, side := .sell, tif := .gtc
        userId := id, orderIdLo := id, priceFits := (min_le_right _ _).trans (by decide) }
    let buy : IncomingOrder :=
      { price := 5020, qty := 4, remainingQty := 4, side := .buy, tif := .gtc, userId := 3
        orderIdLo := 3 }
    ∃ b b' fills handle ending bbo, run Orderbook.call (Orderbook.new ⟨1, 1, 1⟩ 4 5000)
        [.newOrder (sell 5010 1), .newOrder (sell 5020 2)] = some b ∧
      b.processNewOrder buy = some b' ∧ b'.eventBuf.length = 5 ∧
      Contract b (b.effectiveOrder buy) b'.eventBuf fills handle ending bbo := by
  intro sell buy
  simp only [exists_and_left]
  refine exists_run (P := fun b => b.FreshFits buy ∧
    ∃ b', b.processNewOrder buy = some b' ∧ b'.eventBuf.length = 5) (by decide +kernel) ?_
  rintro b hrun ⟨hfits, b', hrun', hlength⟩
  obtain ⟨hcontract, -⟩ := contract_of_run (by decide) (by decide +kernel) (by decide +kernel)
    (by decide +kernel) hrun hfits
  exact ⟨b', hrun', hlength, hcontract b' hrun'⟩

/-- Around this mid price zone 0 has 1000 slots, and two sells of different prices share the last
one.  The fill-or-kill check takes the quantity of the whole slot at the price of its head, so the
buy is let through, fills one of the sells and fails. -/
theorem contract_fails_truncated :
    let sell : Int → Nat → IncomingOrder := fun price id =>
      { price := min price 429496729610700, qty := 1, remainingQty := 1, side := .sell, tif := .gtc
        userId := id, orderIdLo := id, priceFits := (min_le_right _ _).trans (by decide) }
    let buy : IncomingOrder :=
      { price := 429496729610600, qty := 2, remainingQty := 2, side := .buy, tif := .fok
        userId := 3, orderIdLo := 3 }
    let b₀ := Orderbook.new ⟨1, 1, 1⟩ 4 429496729610000
    let calls : List Call :=
      [.newOrder (sell 429496729610600 1), .newOrder (sell 429496729610700 2)]
    b₀.compression.Wide ∧ Along Orderbook.call WideFits b₀ calls ∧
    ((run Orderbook.call b₀ calls).bind fun b => (b.processNewOrder buy).map fun b' =>
      (decide (b.FreshFits buy), (b'.eventBuf.filterMap Event.fill?).map FillReport.qty,
        b'.eventBuf.filterMap Event.ending?)) =
      some (true, [1], [.failed .fillOrKill]) := by
  decide +kernel

end Orderbook

end Rsx.Book
