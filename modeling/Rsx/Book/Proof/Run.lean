import Rsx.Book.Run
import Rsx.Book.Proof.FillOrKill
import Rsx.Book.Proof.Recenter

/-!
# Every reachable book is sound

The invariant of a new book, what each call preserves, and from it what holds after every run within
the machine limits.
-/

namespace Rsx.Book

open PriceTime HasQty Buckets List CompressionMap Orderbook Exchange

theorem CompressionMap.Exact.regular_of_wide {m : CompressionMap} (hm : m.Exact) (hwide : m.Wide)
    (p : Int) : m.Regular p := by
  obtain ⟨h1, h2, h3⟩ := hwide
  refine hm.regular_of_slots (fun z hz1 hz3 => ?_) p
  obtain rfl | rfl | rfl : z = 1 ∨ z = 2 ∨ z = 3 := by omega
  · exact h1
  · exact h2
  · exact h3

namespace Orderbook

variable {b b' : Orderbook} {q : Nat → List Nat} {free : List Nat} {config : BookConfig}
  {capacity : Nat} {midPrice : Int} {order clamped : IncomingOrder}

structure Steady (b : Orderbook) : Prop where
  sound : ∃ q free, Sound b q free
  fits : b.exchange.totalQty ≤ i64Max

structure Live (b : Orderbook) : Prop extends Steady b where
  tick : b.compression.tickSize = b.config.tickSize

/-! ## A new book -/

theorem queued_new (hcap : capacity ≤ NONE) :
    Queued (new config capacity midPrice) (fun _ => []) [] where
  repr := repr_nil rfl rfl trivial rfl List.Perm.nil (Nat.zero_le _) hcap
  active := fun _ => ⟨fun hactive => absurd hactive Bool.false_ne_true, fun ⟨_, hmem⟩ =>
    absurd hmem not_mem_nil⟩
  pos := fun _ _ hmem => absurd hmem not_mem_nil

theorem standing_new (hsized : WellSized midPrice config.tickSize) (hcap : capacity ≤ NONE) :
    Standing (new config capacity midPrice) (fun _ => []) [] where
  queued := queued_new hcap
  exact := hsized.exact
  asc := rfl
  placed := fun _ _ hmem => absurd hmem not_mem_nil
  tracks := fun _ => .inl ⟨rfl, rfl, fun _ _ hmem => absurd hmem not_mem_nil⟩

theorem exchange_new (hsized : CompressionMap.WellSized midPrice config.tickSize)
    (hcap : capacity ≤ NONE) :
    (Orderbook.new config capacity midPrice).exchange = Exchange.empty := by
  have hst := standing_new hsized hcap
  refine Exchange.ext (funext fun s => hst.queued.orders_eq List.Pairwise.nil fun p => ?_)
  unfold entries view
  simp only [map_nil, contents_const_nil, filter_nil]
  rfl

theorem live_new (hsized : WellSized midPrice config.tickSize)
    (hcap : capacity ≤ NONE) : Live (new config capacity midPrice) := by
  have hex := exchange_new hsized hcap
  refine ⟨⟨⟨_, _, standing_new hsized hcap, dvd_of_eq hsized.tickSize_new, ?_⟩, ?_⟩,
    hsized.tickSize_new⟩
  · rw [hex]
    intro o ho
    exact absurd ho not_mem_nil
  · rw [hex]
    decide

/-! ## One call -/

theorem Queued.makers_pos (hq : Queued b q free) (order : IncomingOrder) :
    ∀ o ∈ b.exchange.makers order, 0 < o.remainingQty := by
  intro o ho
  rw [hq.makers_eq] at ho
  obtain ⟨e, he, rfl⟩ := mem_map.1 ho
  obtain ⟨_, -, he⟩ := mem_contents.1 (mem_filter.1 (mem_arrange.1 he)).1
  exact hq.view_pos e he

theorem processNewOrder_cases (hs : Sound b q free) (hfits : b.exchange.totalQty ≤ i64Max)
    (hfresh : b.FreshFits order) (hreg : b.compression.Regular order.price)
    (hrun : b.processNewOrder order = some b') :
    ((∀ clamped, ¬ Accepted b order clamped) ∧ ∃ reason, b' = { b with eventBuf :=
        [.orderFailed order.userId reason order.orderIdHi order.orderIdLo] }) ∨
      ∃ clamped, Accepted b order clamped ∧ Settled clamped { b with eventBuf := [] }
        (b.exchange.submitIf clamped (b.walkFits clamped)) b' := by
  rcases checks_cases b order with ⟨reason, hrejected⟩ | ⟨clamped, halign, hclamp⟩
  · rw [processNewOrder_rejected hrejected] at hrun
    exact .inl ⟨fun _ ha => hrejected.not_accepted ha, reason, (Option.some.inj hrun).symm⟩
  · have ha : Accepted b order clamped := ⟨hfresh.1, halign, hclamp⟩
    obtain ⟨hok, hfull⟩ := processNewOrder_spec hs ha hreg hfresh.2 _ fun _ =>
      hs.canFillFully_eq ha.eq_setRemaining.2.1 hfits
    refine .inr ⟨clamped, ha, ?_⟩
    rcases Nat.lt_or_ge b.orders.capacity
      (b.exchange.submitIf clamped (b.walkFits clamped)).book.size with h | h
    · rw [hfull h] at hrun
      exact absurd hrun (by simp)
    · obtain ⟨_, hb'', hsettled⟩ := hok h
      rw [hb''] at hrun
      exact Option.some.inj hrun ▸ hsettled

theorem Queued.totalQty_submitIf_le (hq : Queued b q free) (hqty : 0 ≤ clamped.remainingQty)
    (fits : Bool) :
    (b.exchange.submitIf clamped fits).book.totalQty ≤
      b.exchange.totalQty + clamped.remainingQty := by
  unfold submitIf
  split_ifs
  · show b.exchange.totalQty ≤ _
    omega
  · show b.exchange.totalQty ≤ _
    omega
  · exact totalQty_trade_le hqty (hq.makers_pos clamped)

/-- What a call does in the naive exchange.  Of the book it takes what comes before the matching:
whether an order is accepted, what its clamp leaves and the fill-or-kill check, and the order that a
handle stands for. -/
inductive NaiveCall (b : Orderbook) (x : Exchange) : Call → Exchange → Prop
  | submitted {order clamped : IncomingOrder} {fits : Bool} (ha : Accepted b order clamped)
    (hcheck : clamped.tif = .fok →
      b.canFillFully clamped.side clamped.price clamped.remainingQty = some fits) :
    NaiveCall b x (.newOrder order) (x.submitIf clamped fits).book
  | refused {order : IncomingOrder} (h : ∀ clamped, ¬ Accepted b order clamped) :
    NaiveCall b x (.newOrder order) x
  | withdrawn {handle userId orderIdHi orderIdLo : Nat} {x' : Exchange}
    (h : b.orderMatches handle userId orderIdHi orderIdLo = true)
    (hwithdrawn : x.Withdrawn (b.slot handle).resting x') :
    NaiveCall b x (.cancelOrderChecked handle userId orderIdHi orderIdLo) x'
  | kept {handle userId orderIdHi orderIdLo : Nat}
    (h : ¬ b.orderMatches handle userId orderIdHi orderIdLo = true) :
    NaiveCall b x (.cancelOrderChecked handle userId orderIdHi orderIdLo) x
  | recentered {newMid : Int} : NaiveCall b x (.recenterNow newMid) x

theorem Steady.processNewOrder (h : Steady b) (hfresh : b.FreshFits order)
    (hreg : b.compression.Regular order.price) (hrun : b.processNewOrder order = some b') :
    Steady b' ∧ Frame b b' ∧ NaiveCall b b.exchange (.newOrder order) b'.exchange := by
  obtain ⟨⟨q, free, hs⟩, hfits⟩ := h
  rcases processNewOrder_cases hs hfits hfresh hreg hrun with
    ⟨hrefused, _, rfl⟩ | ⟨clamped, ha, hsettled⟩
  · exact ⟨⟨⟨q, free, hs.setEvents _⟩, hfits⟩, (Frame.refl b).setEvents _ _, .refused hrefused⟩
  · obtain ⟨-, hpos, _⟩ := ha.eq_setRemaining
    have htotal := hs.queued.totalQty_submitIf_le hpos.le (b.walkFits clamped)
    have hsum := hfresh.2
    rw [← hsettled.exchange] at htotal
    refine ⟨⟨hsettled.sound, by omega⟩, hsettled.frame.setEvents b.eventBuf b'.eventBuf, ?_⟩
    rw [hsettled.exchange]
    exact .submitted ha fun _ => hs.canFillFully_eq hpos hfits

theorem Sound.cancelOrderChecked (hs : Sound b q free) (handle userId orderIdHi orderIdLo : Nat) :
    if b.orderMatches handle userId orderIdHi orderIdLo then
      ∃ b' q' free', b.cancelOrderChecked handle userId orderIdHi orderIdLo = (true, b') ∧
        Sound b' q' free' ∧ b.exchange.Withdrawn (b.slot handle).resting b'.exchange ∧
        0 < (b.slot handle).remainingQty ∧ Frame b b' ∧ b'.users = b.users.removeOrder userId ∧
        b'.eventBuf = b.eventBuf
    else b.cancelOrderChecked handle userId orderIdHi orderIdLo = (false, b) := by
  unfold Orderbook.cancelOrderChecked
  by_cases hmatches : b.orderMatches handle userId orderIdHi orderIdLo = true
  · rw [if_pos hmatches, if_pos hmatches]
    obtain ⟨-, hactive, huser, -⟩ := of_decide_eq_true hmatches
    obtain ⟨t, hmem⟩ := (hs.queued.active handle).1 hactive
    obtain ⟨l₁, l₂, hsplit⟩ := append_of_mem hmem
    obtain ⟨b', hrun, hl, hst'⟩ := cancelOrder_spec hs.toStanding hsplit
    have hframe := hl.frame
    have hviewSplit : b.view q t = l₁.map b.entry ++ b.entry handle :: l₂.map b.entry := by
      rw [view, hsplit, map_append, map_cons]
    obtain ⟨o₁, o₂, hx, hx', hother⟩ :=
      exchange_removed hs.toStanding hst' hframe.compression hviewSplit hl.view
    have hwithdrawn : b.exchange.Withdrawn (b.slot handle).resting b'.exchange :=
      ⟨⟨o₁, o₂, hx, hx'⟩, hother⟩
    refine ⟨b', _, _, hrun, ⟨hst', ?_, ?_⟩, hwithdrawn, hs.queued.pos t handle hmem, hframe, ?_,
      hl.events⟩
    · rw [hframe.compression, hframe.config]
      exact hs.tick
    · intro o ho o' ho'
      exact hs.uncrossed o (hwithdrawn.mem ho) o' (hwithdrawn.mem ho')
    · rw [hl.users]
      exact congrArg _ huser
  · rw [if_neg hmatches, if_neg hmatches]

theorem Steady.cancelOrderChecked (h : Steady b) (handle userId orderIdHi orderIdLo : Nat) :
    let b' := (b.cancelOrderChecked handle userId orderIdHi orderIdLo).2
    Steady b' ∧ Frame b b' ∧
      NaiveCall b b.exchange (.cancelOrderChecked handle userId orderIdHi orderIdLo)
        b'.exchange := by
  obtain ⟨⟨q, free, hs⟩, hfits⟩ := h
  have hcancel := hs.cancelOrderChecked handle userId orderIdHi orderIdLo
  by_cases hmatches : b.orderMatches handle userId orderIdHi orderIdLo = true
  · rw [if_pos hmatches] at hcancel
    obtain ⟨b', q', free', hrun, hs', hwithdrawn, hpos, hframe, -⟩ := hcancel
    have htotal := hwithdrawn.totalQty
    have hqty : 0 < (b.slot handle).resting.remainingQty := hpos
    rw [hrun]
    refine ⟨⟨⟨q', free', hs'⟩, ?_⟩, hframe, .withdrawn hmatches hwithdrawn⟩
    show b'.exchange.totalQty ≤ i64Max
    omega
  · rw [if_neg hmatches] at hcancel
    rw [hcancel]
    exact ⟨⟨⟨q, free, hs⟩, hfits⟩, Frame.refl b, .kept hmatches⟩

theorem Sound.recenterNow (hs : Sound b q free) (hfits : b.exchange.totalQty ≤ i64Max)
    {newMid : Int} (hsized : CompressionMap.WellSized newMid b.config.tickSize)
    (hregular : ∀ o ∈ b.resting, (CompressionMap.new newMid b.config.tickSize).Regular o.price)
    (haligned : ∀ o ∈ b.resting, b.config.tickSize ∣ o.price) :
    ∃ b' q', b.recenterNow newMid = some b' ∧ Sound b' q' free ∧ b'.exchange = b.exchange ∧
      b'.compression = CompressionMap.new newMid b.config.tickSize ∧ b'.config = b.config ∧
      b'.orders.capacity = b.orders.capacity ∧ b'.users = b.users ∧ b'.eventBuf = b.eventBuf := by
  have hacc : Accepts b q (CompressionMap.new newMid b.config.tickSize) := by
    have hresting : ∀ t, ∀ e ∈ b.view q t, e.order ∈ b.resting := fun t e he =>
      hs.queued.mem_resting.2 ⟨t, e, he, rfl⟩
    refine ⟨hsized.exact, fun t e he => ?_, fun t e he => hregular _ (hresting t e he)⟩
    rw [hsized.tickSize_new]
    exact haligned _ (hresting t e he)
  obtain ⟨b', q', hrun, hst', hcomp, hentries, hconfig, hcap, husers, hevents⟩ :=
    recenterNow_spec hs.toStanding (hs.queued.totalQty_exchange ▸ hfits) hacc
  have hex : b'.exchange = b.exchange := exchange_congr hs.queued hst'.queued hentries
  refine ⟨b', q', hrun, ⟨hst', ?_, hex ▸ hs.uncrossed⟩, hex, hcomp, hconfig, hcap, husers, hevents⟩
  rw [hcomp, hconfig, hsized.tickSize_new]

theorem Steady.recenterNow (h : Steady b) {newMid : Int}
    (hsized : CompressionMap.WellSized newMid b.config.tickSize)
    (hregular : ∀ o ∈ b.resting, (CompressionMap.new newMid b.config.tickSize).Regular o.price)
    (haligned : ∀ o ∈ b.resting, b.config.tickSize ∣ o.price)
    (hrun : b.recenterNow newMid = some b') :
    Steady b' ∧ b'.compression = CompressionMap.new newMid b.config.tickSize ∧
      b'.config = b.config ∧ b'.orders.capacity = b.orders.capacity ∧
      b'.exchange = b.exchange := by
  obtain ⟨⟨_, free, hs⟩, hfits⟩ := h
  obtain ⟨b'', q', hrun', hs', hex, hcomp, hconfig, hcap, -⟩ :=
    hs.recenterNow hfits hsized hregular haligned
  obtain rfl : b'' = b' := Option.some.inj (hrun'.symm.trans hrun)
  exact ⟨⟨⟨q', free, hs'⟩, hex ▸ hfits⟩, hcomp, hconfig, hcap, hex⟩

theorem Live.aligned (h : Live b) : ∀ o ∈ b.resting, b.config.tickSize ∣ o.price := by
  obtain ⟨_, _, hs⟩ := h.sound
  intro o ho
  obtain ⟨t, e, he, rfl⟩ := hs.queued.mem_resting.1 ho
  rw [← h.tick]
  exact (hs.placed t e he).aligned

/-! ## Every run -/

/-- What a call makes of a live book. -/
structure Called (b : Orderbook) (c : Call) (b' : Orderbook) : Prop where
  live : Live b'
  naive : NaiveCall b b.exchange c b'.exchange
  compression : b'.compression =
    match c with
    | .recenterNow newMid => CompressionMap.new newMid b.config.tickSize
    | _ => b.compression
  config : b'.config = b.config
  capacity : b'.orders.capacity = b.orders.capacity

theorem Live.call (h : Live b) {c : Call} (hfits : b.Fits c) (hrun : b.call c = some b') :
    Called b c b' := by
  have htick : ∀ {b'}, Frame b b' → b'.compression.tickSize = b'.config.tickSize := by
    intro b' hframe
    rw [hframe.compression, hframe.config]
    exact h.tick
  cases c with
  | newOrder =>
    obtain ⟨hsteady, hframe, hnaive⟩ := h.toSteady.processNewOrder hfits.1 hfits.2 hrun
    exact ⟨⟨hsteady, htick hframe⟩, hnaive, hframe.compression, hframe.config, hframe.capacity⟩
  | cancelOrderChecked handle userId orderIdHi orderIdLo =>
    cases hrun
    obtain ⟨hsteady, hframe, hnaive⟩ :=
      h.toSteady.cancelOrderChecked handle userId orderIdHi orderIdLo
    exact ⟨⟨hsteady, htick hframe⟩, hnaive, hframe.compression, hframe.config, hframe.capacity⟩
  | recenterNow =>
    obtain ⟨hsteady, hcomp, hconfig, hcap, hexchange⟩ :=
      h.toSteady.recenterNow hfits.1 hfits.2 h.aligned hrun
    refine ⟨⟨hsteady, ?_⟩, hexchange ▸ .recentered, hcomp, hconfig, hcap⟩
    rw [hcomp, hconfig]
    exact hfits.1.tickSize_new

end Orderbook

end Rsx.Book
