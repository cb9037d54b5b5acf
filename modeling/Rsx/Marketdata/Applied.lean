import Rsx.Marketdata.Anchor
import Rsx.Marketdata.Ledger

/-!
# What a record does to a shadow book

A shadow book finds the orders of its map under their handles.  An insert adds an order under a free
handle; a cancel and a fill change the order under the handle of its id.
-/

namespace Rsx.Marketdata

open Function Book Book.Orderbook ShadowBook Option

namespace ShadowBook

/-- The book is in order, and the map points to orders that rest. -/
structure Valid (sh : ShadowBook) : Prop where
  kept : ∃ q free, Kept sh.book q free
  total : sh.book.exchange.totalQty ≤ i64Max
  map : ∀ id h, sh.orderMap id = some h → ∃ o, sh.book.held h = some o ∧ orderId o = id

/-- The book with another order, or none, under a handle. -/
structure Updates (sh : ShadowBook) (h : Nat) (v : Option Resting) (sh' : ShadowBook) : Prop where
  valid : sh'.Valid
  held : sh'.book.held = update sh.book.held h v
  capacity : sh'.book.orders.capacity = sh.book.orders.capacity
  config : sh'.book.config = sh.book.config
  symbolId : sh'.symbolId = sh.symbolId

variable {sh sh' : ShadowBook} {id : OrderId} {timestampNs userId h : Nat} {price qty : Int}
  {side : Side} {o : Resting}

theorem valid_new (symbolId : Nat) (config : BookConfig) {capacity : Nat} (midPrice : Int)
    (hcap : capacity ≤ NONE) : (new symbolId config capacity midPrice).Valid where
  kept := ⟨_, _, kept_new hcap⟩
  total := by
    have hq : Queued (new symbolId config capacity midPrice).book (fun _ => []) [] :=
      queued_new hcap
    have hnone : (new symbolId config capacity midPrice).book.held = fun _ => none := rfl
    rw [← hq.heldQty_eq, hnone]
    simp [heldQty, i64Max]
  map := fun _ _ hnone => nomatch hnone

theorem Valid.held_lt (hv : sh.Valid) (ho : sh.book.held h = some o) :
    h < sh.book.orders.capacity := by
  obtain ⟨_, _, hk⟩ := hv.kept
  exact hk.queued.held_lt (by simp [ho])

theorem slot_of_held (ho : sh.book.held h = some o) :
    (sh.book.slot h).active = true ∧ o = (sh.book.slot h).resting := by
  unfold Orderbook.held at ho
  split_ifs at ho with hactive
  exact ⟨hactive, (some.inj ho).symm⟩

def inserted (price qty : Int) (side : Side) (userId timestampNs : Nat) (id : OrderId) :
    Resting where
  userId := userId
  orderIdHi := id.1
  orderIdLo := id.2
  side := side
  price := price
  remainingQty := qty
  originalQty := qty
  tif := .gtc
  reduceOnly := false
  timestampNs := timestampNs

/-- **An insert.** -/
theorem Valid.applyInsertById (hv : sh.Valid) (hqty : 0 < qty)
    (hsum : sh.book.exchange.totalQty + qty ≤ i64Max)
    (hrun : sh.applyInsertById price qty side userId timestampNs id = some sh') :
    ∃ h, sh.book.held h = none ∧
      sh.Updates h (some (inserted price qty side userId timestampNs id)) sh' ∧
      sh'.orderMap = update sh.orderMap id (some h) ∧ Frame sh.book sh'.book := by
  obtain ⟨⟨handle, book⟩, hinsert, hrun⟩ := bind_eq_some_iff.1 hrun
  cases hrun
  obtain ⟨q, _, hk⟩ := hv.kept
  set o := inserted price qty side userId timestampNs id with ho
  have hinsert : sh.book.insertOrder o = some (handle, book) := hinsert
  obtain ⟨⟨_, halloc⟩, hlt⟩ := insertOrder_some hinsert
  have hsum' : PriceTime.total (sh.book.view q (sh.book.compression.priceToIndex o.price)) +
      o.remainingQty ≤ i64Max := by
    have hle := hk.queued.total_view_le (sh.book.compression.priceToIndex o.price)
    rw [hk.queued.totalQty_exchange] at hsum
    have hrem : o.remainingQty = qty := rfl
    omega
  obtain ⟨_, _, hinsert', hjoins⟩ := hk.queued.insertOrder halloc rfl rfl hlt hqty hsum'
  obtain ⟨-, rfl⟩ := Prod.mk.inj (some.inj (hinsert.symm.trans hinsert'))
  have hframe := hjoins.frame
  have hfresh := hjoins.fresh
  have hheld := hjoins.held
  obtain ⟨q₁, free₁, hk₁⟩ := hk.insertOrder rfl hqty hsum hinsert
  have hbound : handle < sh.book.orders.capacity := by
    rw [← hframe.capacity]
    refine hk₁.queued.held_lt ?_
    rw [hheld, update_self]
    exact some_ne_none _
  refine ⟨handle, hfresh, ⟨⟨⟨q₁, free₁, hk₁⟩, ?_, ?_⟩, hheld, hframe.capacity, hframe.config, rfl⟩,
    rfl, hframe⟩
  · rw [← hk₁.queued.heldQty_eq, hframe.capacity, hheld, 
      heldQty_insert hbound hfresh o fun _ => true, hk.queued.heldQty_eq]
    exact hsum
  · intro id' h' hmap
    have hmap : update sh.orderMap id (some handle) id' = some h' := hmap
    rw [hheld]
    rcases eq_or_ne id' id with rfl | hne
    · rw [update_self] at hmap
      cases hmap
      exact ⟨o, update_self .., rfl⟩
    · rw [update_of_ne hne] at hmap
      obtain ⟨o', ho', hid⟩ := hv.map id' h' hmap
      refine ⟨o', ?_, hid⟩
      rw [update_of_ne]
      · exact ho'
      · rintro rfl
        rw [hfresh] at ho'
        cases ho'

theorem Valid.orderMatches (hv : sh.Valid) (ho : sh.book.held h = some o) (hid : orderId o = id) :
    sh.book.orderMatches h (sh.book.orders.get h).userId id.1 id.2 = true := by
  obtain ⟨hactive, rfl⟩ := slot_of_held ho
  obtain rfl := hid
  exact decide_eq_true ⟨hv.held_lt ho, hactive, rfl, rfl, rfl⟩

theorem Valid.remove (hv : sh.Valid) (ho : sh.book.held h = some o)
    (hid : orderId o = id) (seq timestampNs : Nat) :
    sh.Updates h none { sh with
      book := (sh.book.cancelOrderChecked h (sh.book.orders.get h).userId id.1 id.2).2
      seq := seq, timestampNs := timestampNs, orderMap := update sh.orderMap id none } ∧
    Frame sh.book (sh.book.cancelOrderChecked h (sh.book.orders.get h).userId id.1 id.2).2 := by
  obtain ⟨_, _, hk⟩ := hv.kept
  obtain ⟨hactive, _⟩ := slot_of_held ho
  unfold Orderbook.cancelOrderChecked
  rw [if_pos (hv.orderMatches ho hid)]
  obtain ⟨⟨q', free', hk'⟩, hframe, hheld, -⟩ := hk.cancelOrder hactive
  refine ⟨⟨⟨⟨q', free', hk'⟩, ?_, ?_⟩, hheld, hframe.capacity, hframe.config, rfl⟩, hframe⟩
  · have htotal := hk.cancelOrder_totalQty hactive
    obtain ⟨t, ht⟩ := (hk.queued.active h).1 hactive
    have hpos := hk.queued.pos t h ht
    have hle := hv.total
    show (sh.book.cancelOrder h).2.exchange.totalQty ≤ i64Max
    omega
  · intro id' h' hmap
    have hmap : update sh.orderMap id none id' = some h' := hmap
    have hne : id' ≠ id := by
      rintro rfl
      rw [update_self] at hmap
      cases hmap
    rw [update_of_ne hne] at hmap
    obtain ⟨o', ho', hid'⟩ := hv.map id' h' hmap
    refine ⟨o', ?_, hid'⟩
    rw [hheld, update_of_ne]
    · exact ho'
    · rintro rfl
      rw [ho] at ho'
      obtain rfl := some.inj ho'
      exact hne (hid'.symm.trans hid)

/-- **A cancel.** -/
theorem Valid.applyCancelByOrderId (hv : sh.Valid) (hmap : sh.orderMap id = some h)
    (ho : sh.book.held h = some o) (timestampNs : Nat) :
    (sh.applyCancelByOrderId id timestampNs).2 = some (o.side, o.price) ∧
      sh.Updates h none (sh.applyCancelByOrderId id timestampNs).1 ∧
      (sh.applyCancelByOrderId id timestampNs).1.orderMap = update sh.orderMap id none ∧
      Frame sh.book (sh.applyCancelByOrderId id timestampNs).1.book := by
  obtain ⟨_, ho', hid⟩ := hv.map id h hmap
  obtain rfl := Option.some.inj (ho.symm.trans ho')
  obtain ⟨-, heq⟩ := slot_of_held ho
  obtain ⟨hupdates, hframe⟩ := hv.remove ho hid (sh.seq + 1) timestampNs
  unfold ShadowBook.applyCancelByOrderId
  simp only [hmap]
  refine ⟨?_, hupdates, trivial, hframe⟩
  rw [heq]
  rfl

def filled (o : Resting) (qty : Int) : Option Resting :=
  if wrap64 (o.remainingQty - qty) ≤ 0 then none
  else if o.remainingQty ≤ wrap64 (o.remainingQty - qty) then some o
  else some (PriceTime.HasQty.setQty o (wrap64 (o.remainingQty - qty)))

/-- **A fill.** -/
theorem Valid.applyFillByOrderId (hv : sh.Valid) (hmap : sh.orderMap id = some h)
    (ho : sh.book.held h = some o) (qty : Int) (timestampNs : Nat) :
    (sh.applyFillByOrderId id qty timestampNs).2 = some (o.side, o.price) ∧
      sh.Updates h (filled o qty) (sh.applyFillByOrderId id qty timestampNs).1 ∧
      (sh.applyFillByOrderId id qty timestampNs).1.orderMap =
        (if filled o qty = none then update sh.orderMap id none else sh.orderMap) ∧
      Frame sh.book (sh.applyFillByOrderId id qty timestampNs).1.book := by
  obtain ⟨o', ho', hid⟩ := hv.map id h hmap
  obtain rfl := Option.some.inj (ho.symm.trans ho')
  obtain ⟨_, heq⟩ := slot_of_held ho
  obtain ⟨q, free, hk⟩ := hv.kept
  have hget : sh.book.orders.get h = sh.book.slot h := rfl
  have hqty : (sh.book.slot h).remainingQty = o.remainingQty := by
    rw [heq]
    rfl
  have hplace : some ((sh.book.slot h).side, (sh.book.slot h).price) = some (o.side, o.price) := by
    rw [heq]
    rfl
  unfold ShadowBook.applyFillByOrderId
  simp only [hmap, hget, hqty]
  by_cases hdone : wrap64 (o.remainingQty - qty) ≤ 0
  · obtain ⟨hupdates, hframe⟩ := hv.remove ho hid (sh.seq + 1) timestampNs
    have hfilled : filled o qty = none := if_pos hdone
    rw [if_pos hdone, hfilled]
    exact ⟨hplace, hupdates, rfl, hframe⟩
  · rw [if_neg hdone]
    have hpos := not_le.1 hdone
    have hmatches := hv.orderMatches ho hid
    -- A map that points to the handle still finds the order there.
    have hmapped : ∀ (o' : Resting), orderId o' = orderId o → ∀ id' h', sh.orderMap id' = some h' →
        ∃ o'', update sh.book.held h (some o') h' = some o'' ∧ orderId o'' = id' := by
      intro o' hsame id' h' hmap'
      rcases eq_or_ne h' h with rfl | hne
      · obtain ⟨_, ho₁, hid₁⟩ := hv.map id' h' hmap'
        obtain rfl := Option.some.inj (ho.symm.trans ho₁)
        exact ⟨o', update_self .., hsame.trans hid₁⟩
      · rw [update_of_ne hne]
        exact hv.map id' h' hmap'
    by_cases hlower : o.remainingQty ≤ wrap64 (o.remainingQty - qty)
    · have hfilled : filled o qty = some o := (if_neg hdone).trans (if_pos hlower)
      rw [modifyOrderQtyDown_of_not_lt hpos (.inr (hqty.symm ▸ hlower)), hfilled]
      refine ⟨hplace, ⟨⟨⟨q, free, hk⟩, hv.total, hv.map⟩, ?_, rfl, rfl, rfl⟩, rfl, Frame.refl _⟩
      rw [← ho, update_eq_self]
    · have hlt := not_le.1 hlower
      obtain ⟨b', hrun, hk', hframe, hheld⟩ := hk.reduce hmatches hpos (hqty.symm ▸ hlt)
      have hfilled : filled o qty =
          some (PriceTime.HasQty.setQty o (wrap64 (o.remainingQty - qty))) :=
        (if_neg hdone).trans (if_neg hlower)
      rw [hget] at hrun
      rw [hrun, hfilled]
      rw [← heq] at hheld
      refine ⟨hplace, ⟨⟨⟨q, free, hk'⟩, ?_, ?_⟩, hheld, hframe.capacity, hframe.config, rfl⟩, rfl,
        hframe⟩
      · have hupdate := heldQty_update sh.book.held (hv.held_lt ho)
          (some (PriceTime.HasQty.setQty o (wrap64 (o.remainingQty - qty)))) fun _ => true
        rw [ho] at hupdate
        rw [← hk'.queued.heldQty_eq, hframe.capacity, hheld]
        have htotal := hv.total
        rw [← hk.queued.heldQty_eq] at htotal
        have hold : ((some o).filter fun _ => true).elim 0 Resting.remainingQty =
          o.remainingQty := rfl
        have hnew : ((some (PriceTime.HasQty.setQty o (wrap64 (o.remainingQty - qty)))).filter
            fun _ => true).elim 0 Resting.remainingQty = wrap64 (o.remainingQty - qty) := rfl
        omega
      · intro id' h' hmap'
        rw [hheld]
        exact hmapped (PriceTime.HasQty.setQty o (wrap64 (o.remainingQty - qty))) rfl id' h' hmap'

end ShadowBook

end Rsx.Marketdata
