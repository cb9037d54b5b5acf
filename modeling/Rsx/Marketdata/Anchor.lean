import Rsx.Book.Representation
import Rsx.Marketdata.Shadow

/-!
# The maps of a shadow book

A shadow book is anchored at any price and recenters by itself.  Up to thirty billion ticks the
slots of every map it can take number fewer than 2^32, so that no index is out of bounds.  -/

namespace Rsx.Marketdata

open Function Book Book.Orderbook List CompressionMap Orderbook

def maxPrice (tickSize : Int) : Int :=
  min (i64Max / 2) (30000000000 * max tickSize 1)

structure Sized (tickSize midPrice : Int) : Prop where
  tick_le : 1000 * max tickSize 1 ≤ i64Max
  mid_le : midPrice ≤ maxPrice tickSize
  mid_ge : -i64Max ≤ 50 * midPrice

instance (tickSize midPrice : Int) : Decidable (Sized tickSize midPrice) :=
  decidable_of_iff (1000 * max tickSize 1 ≤ i64Max ∧ midPrice ≤ maxPrice tickSize ∧
    -i64Max ≤ 50 * midPrice) ⟨fun ⟨ht, hl, hg⟩ => ⟨ht, hl, hg⟩, fun h => ⟨h.1, h.2, h.3⟩⟩

namespace Sized

variable {tickSize midPrice : Int}
  {inner outer ticks tick p : Int}

theorem slots_le {n : Int} (hinner : 0 ≤ inner) (hle : inner ≤ outer)
    (houter : outer ≤ i64Max / 100) (hticks : 0 < ticks) (hticksLe : ticks ≤ 1000)
    (htick : 0 < tick) (htickLe : 1000 * tick ≤ i64Max) (hn : outer * 2 ≤ n * (ticks * tick)) :
    compressedSlots inner outer ticks tick ≤ n := by
  rw [compressedSlots_eq hinner hle houter hticks hticksLe htick htickLe]
  refine Int.ediv_le_of_le_mul (Int.mul_pos hticks htick) ?_
  omega

theorem percentOf_mul_le (hmid : 0 ≤ midPrice) (hp : 0 ≤ p) :
    100 * percentOf midPrice p ≤ midPrice * p := by
  rw [percentOf_eq_min hmid hp]
  omega

theorem wellSized (h : Sized tickSize midPrice) (hmid : 0 < midPrice) :
    WellSized midPrice (max tickSize 1) := by
  set tick := max tickSize 1 with htick
  have hpos : 0 < tick := lt_of_lt_of_le Int.one_pos (le_max_right ..)
  have hle : midPrice ≤ 30000000000 * tick := h.mid_le.trans (min_le_right ..)
  have htickLe : 1000 * tick ≤ i64Max := h.tick_le
  have hlow : ∀ p : Int, 0 ≤ p → 0 ≤ percentOf midPrice p := fun p hp =>
    percentOf_nonneg hmid.le hp
  have hmono : ∀ p p' : Int, 0 ≤ p → p ≤ p' →
      percentOf midPrice p ≤ percentOf midPrice p' := fun p p' hp hpp =>
    percentOf_mono hmid.le hp hpp
  have hhigh : ∀ p : Int, 0 ≤ p → percentOf midPrice p ≤ i64Max / 100 := fun p hp =>
    percentOf_le hmid.le hp
  have h5 := percentOf_mul_le hmid.le (show (0 : Int) ≤ 5 by decide)
  have h15 := percentOf_mul_le hmid.le (show (0 : Int) ≤ 15 by decide)
  have h30 := percentOf_mul_le hmid.le (show (0 : Int) ≤ 30 by decide)
  have h50 := percentOf_mul_le hmid.le (show (0 : Int) ≤ 50 by decide)
  have hzero : rawSlots midPrice tick 0 ≤ 3000000000 := by
    show zone0Slots (percentOf midPrice 5) tick ≤ 3000000000
    rw [zone0Slots_eq (hlow 5 (by decide)) (hhigh 5 (by decide)) hpos htickLe]
    have hslots : (percentOf midPrice 5 + tick - 1) / tick ≤ 1500000000 := by
      refine Int.lt_add_one_iff.1 (Int.ediv_lt_of_lt_mul hpos ?_)
      omega
    omega
  have hone : rawSlots midPrice tick 1 ≤ 900000000 :=
    slots_le (hlow 5 (by decide)) (hmono 5 15 (by decide) (by decide)) (hhigh 15 (by decide))
      (by decide) (by decide) hpos htickLe (by omega)
  have htwo : rawSlots midPrice tick 2 ≤ 180000000 :=
    slots_le (hlow 15 (by decide)) (hmono 15 30 (by decide) (by decide)) (hhigh 30 (by decide))
      (by decide) (by decide) hpos htickLe (by omega)
  have hthree : rawSlots midPrice tick 3 ≤ 30000000 :=
    slots_le (hlow 30 (by decide)) (hmono 30 50 (by decide) (by decide)) (hhigh 50 (by decide))
      (by decide) (by decide) hpos htickLe (by omega)
  exact ⟨hmid, hpos, htickLe, by omega⟩

variable (h : Sized tickSize midPrice)
include h

theorem rawSlots_of_nonpos (hmid : midPrice ≤ 0) {z : Nat} (hz : z < 4) :
    rawSlots midPrice (max tickSize 1) z = 0 := by
  have hpos : 0 < max tickSize 1 := lt_of_lt_of_le Int.one_pos (le_max_right ..)
  have htickLe := h.tick_le
  have hlow := h.mid_ge
  have h5 := percentOf_of_nonpos h.mid_ge hmid (show (0 : Int) ≤ 5 by decide) (by decide)
  have h15 := percentOf_of_nonpos h.mid_ge hmid (show (0 : Int) ≤ 15 by decide) (by decide)
  have h30 := percentOf_of_nonpos h.mid_ge hmid (show (0 : Int) ≤ 30 by decide) (by decide)
  have h50 := percentOf_of_nonpos h.mid_ge hmid (show (0 : Int) ≤ 50 by decide) (by decide)
  simp only [i64Max] at hlow
  obtain rfl | rfl | rfl | rfl : z = 0 ∨ z = 1 ∨ z = 2 ∨ z = 3 := by omega
  · show zone0Slots _ _ = 0
    unfold zone0Slots
    have hinner : max (percentOf midPrice 5) 0 = 0 := max_eq_right (by omega)
    have hwrap : wrap64 (0 + max tickSize 1 - 1) = max tickSize 1 - 1 := by
      rw [zero_add]
      exact wrap64_of_nonneg (by omega) (by omega)
    rw [hinner, Int.tdiv_eq_zero_of_lt (by omega) (by omega)]
    rfl
  all_goals
    exact compressedSlots_of_le (by omega) (by simp only [i64Min]; omega) (by decide) (by decide)
      hpos htickLe

theorem priceToIndex_of_nonpos (hmid : midPrice ≤ 0) (p : Int) :
    (new midPrice tickSize).priceToIndex p < (new midPrice tickSize).totalSlots := by
  set m := new midPrice tickSize with hm
  have hslots : ∀ z < 4, m.zoneSlots z = 0 := by
    intro z hz
    show asU32 (rawSlots midPrice (max tickSize 1) z) = 0
    rw [h.rawSlots_of_nonpos hmid hz]
    rfl
  have hbase : m.baseIndices 4 = 0 := by
    show baseOf m.zoneSlots 4 = 0
    simp only [baseOf, hslots 0 (by decide), hslots 1 (by decide),
      hslots 2 (by decide), hslots 3 (by decide)]
  have htotal : m.totalSlots = 2 := by
    show (baseOf m.zoneSlots 4 + m.zoneSlots 4) % 4294967296 = 2
    rw [show baseOf m.zoneSlots 4 = 0 from hbase]
    rfl
  have hthreshold : ∀ z < 4, m.thresholds z ≤ 0 := by
    have h5 := percentOf_of_nonpos h.mid_ge hmid (show (0 : Int) ≤ 5 by decide) (by decide)
    have h15 := percentOf_of_nonpos h.mid_ge hmid (show (0 : Int) ≤ 15 by decide) (by decide)
    have h30 := percentOf_of_nonpos h.mid_ge hmid (show (0 : Int) ≤ 30 by decide) (by decide)
    have h50 := percentOf_of_nonpos h.mid_ge hmid (show (0 : Int) ≤ 50 by decide) (by decide)
    intro z hz
    obtain rfl | rfl | rfl | rfl : z = 0 ∨ z = 1 ∨ z = 2 ∨ z = 3 := by omega
    · show percentOf midPrice 5 ≤ 0
      omega
    · show percentOf midPrice 15 ≤ 0
      omega
    · show percentOf midPrice 30 ≤ 0
      omega
    · show percentOf midPrice 50 ≤ 0
      omega
  have hzone : m.zoneOf (m.distance p) = 4 := by
    have hdistance := m.distance_nonneg p
    unfold zoneOf
    rw [if_neg (not_lt.2 ((hthreshold 1 (by decide)).trans hdistance)),
      if_neg (not_lt.2 ((hthreshold 2 (by decide)).trans hdistance)),
      if_neg (not_lt.2 ((hthreshold 3 (by decide)).trans hdistance))]
  unfold priceToIndex
  dsimp only
  rw [hzone, if_pos rfl, hbase, htotal]
  split_ifs <;> decide

/-- **Every index is in bounds.** -/
theorem priceToIndex_lt (p : Int) : (new midPrice tickSize).priceToIndex p <
      (new midPrice tickSize).totalSlots := by
  rcases lt_or_ge 0 midPrice with hpos | hneg
  · rw [new_max]
    exact (h.wellSized hpos).exact.priceToIndex_lt p
  · exact h.priceToIndex_of_nonpos hneg p

end Sized

/-! ## Prices in a book -/

/-- The prices of the slab and the best prices are at most `top`. -/
structure Ranged (top : Int) (b : Orderbook) : Prop where
  price : ∀ h, 0 ≤ (b.slot h).price ∧ (b.slot h).price ≤ top
  best : ∀ s, 0 ≤ b.bestPx s ∧ b.bestPx s ≤ top

namespace Ranged

variable {top : Int} {b b' : Orderbook} {q : Nat → List Nat} {free : List Nat}
  {price : Int} {h oldIdx : Nat}

theorem new (htop : 0 ≤ top) (config : BookConfig) (capacity : Nat) (midPrice : Int) :
    Ranged top (new config capacity midPrice) :=
  ⟨fun _ => ⟨le_rfl, htop⟩, fun _ => ⟨le_rfl, htop⟩⟩

theorem congr (hr : Ranged top b) (hprice : ∀ h, (b'.slot h).price = (b.slot h).price)
    (hbest : b'.bestPx = b.bestPx) : Ranged top b' where
  price := fun h => hprice h ▸ hr.price h
  best := hbest ▸ hr.best

theorem linkTail (hr : Ranged top b) (t h : Nat) (side : Side) (qty : Int) :
    Ranged top (b.linkTail t h side qty) :=
  hr.congr (fun x => (OrderSlot.fields_of_data (data_linkTail b t h side qty x)).2.2.2.2) rfl

theorem improveBest (hr : Ranged top b) (side : Side) (tick : Nat)
    (hprice : 0 ≤ price ∧ price ≤ top) : Ranged top (b.improveBest side tick price) := by
  unfold Orderbook.improveBest
  by_cases hbetter : b.bestTick side = NONE ∨ side.improves price (b.bestPx side)
  · rw [if_pos hbetter]
    refine ⟨hr.price, fun s => ?_⟩
    show 0 ≤ update b.bestPx side price s ∧ update b.bestPx side price s ≤ top
    rcases eq_or_ne s side with rfl | hne
    · rwa [update_self]
    · rw [update_of_ne hne]
      exact hr.best s
  · rw [if_neg hbetter]
    exact hr

theorem slots_alloc {orders orders' : Slab OrderSlot}
    (halloc : orders.alloc = some (h, orders')) : orders'.slots = orders.slots := by
  unfold Slab.alloc at halloc
  split_ifs at halloc <;>
  · obtain ⟨-, rfl⟩ := Prod.mk.inj (Option.some.inj halloc)
    rfl

theorem insertResting (hr : Ranged top b) {qty : Int} {side : Side} {tif : TimeInForce}
    {userId timestampNs orderIdHi orderIdLo : Nat} {reduceOnly : Bool}
    (hprice : 0 ≤ price ∧ price ≤ top)
    (hrun : b.insertResting price qty side tif userId reduceOnly timestampNs orderIdHi orderIdLo =
      some (h, b')) : Ranged top b' := by
  obtain ⟨⟨handle, orders⟩, halloc, hrun⟩ := Option.bind_eq_some_iff.1 hrun
  split_ifs at hrun
  obtain ⟨-, rfl⟩ := Prod.mk.inj (Option.some.inj hrun)
  refine Ranged.congr (b := Orderbook.improveBest _ _ _ _) (Ranged.improveBest ?_ side _ hprice)
    (fun _ => rfl) rfl
  apply Ranged.linkTail
  refine ⟨fun x => ?_, hr.best⟩
  have hslots := slots_alloc halloc
  rcases eq_or_ne x handle with rfl | hne
  · show 0 ≤ (update orders.slots x _ x).price ∧ (update orders.slots x _ x).price ≤ top
    rw [update_self]
    exact hprice
  · show 0 ≤ (update orders.slots handle _ x).price ∧ (update orders.slots handle _ x).price ≤ top
    rw [update_of_ne hne, hslots]
    exact hr.price x

theorem topStep_price {c : Int → Prop} {s : Side} {orders : List OrderSlot} {best : Int × Int}
    (hprices : ∀ order ∈ orders, c order.price)
    (hsome : c best.1 ∨ best.1 = s.worstPx ∧ ∃ order ∈ orders, order.side = s ∧
      (s.improves order.price s.worstPx = true ∨ order.price = s.worstPx)) :
    c (orders.foldl (topStep s) best).1 := by
  induction orders generalizing best with
  | nil =>
    rcases hsome with hc | ⟨-, order, hmem, -⟩
    · exact hc
    · cases hmem
  | cons order orders ih =>
    have hrest := fun o ho => hprices o (mem_cons_of_mem _ ho)
    have horder := hprices order (mem_cons_self ..)
    refine ih hrest ?_
    unfold topStep
    by_cases hside : order.side = s
    · rw [if_pos hside]
      by_cases hbetter : s.improves order.price best.1 = true
      · rw [if_pos hbetter]
        exact .inl horder
      · rw [if_neg hbetter]
        by_cases hsame : order.price = best.1
        · rw [if_pos hsame]
          exact .inl (hsame ▸ horder)
        · rw [if_neg hsame]
          rcases hsome with hc | ⟨hworst, other, hmem, hother, hcase⟩
          · exact .inl hc
          · refine .inr ⟨hworst, other, ?_, hother, hcase⟩
            rcases mem_cons.1 hmem with rfl | hmem
            · rw [hworst] at hbetter hsame
              exact (hcase.elim hbetter hsame).elim
            · exact hmem
    · rw [if_neg hside]
      rcases hsome with hc | ⟨hworst, other, hmem, hother, hcase⟩
      · exact .inl hc
      · refine .inr ⟨hworst, other, ?_, hother, hcase⟩
        rcases mem_cons.1 hmem with rfl | hmem
        · exact absurd hother hside
        · exact hmem

theorem topAt (hprices : ∀ h, 0 ≤ (b.slot h).price ∧ (b.slot h).price ≤ top) (hq : Queued b q free)
    (htop : 0 ≤ top) (hmax : top ≤ i64Max) (s : Side) (t : Nat) :
    0 ≤ (b.topAt s t).1 ∧ (b.topAt s t).1 ≤ top := by
  unfold Orderbook.topAt
  by_cases hnone : t = NONE
  · rw [if_pos hnone]
    exact ⟨le_rfl, htop⟩
  rw [if_neg hnone]
  by_cases hcount : (b.activeLevels t).count s = 0
  · rw [if_pos hcount]
    exact ⟨le_rfl, htop⟩
  rw [if_neg hcount]
  by_cases hzone : t < b.compression.zoneSlots 0
  · rw [if_pos hzone]
    exact hprices _
  rw [if_neg hzone, hq.repr.levelOrders_eq]
  refine topStep_price (c := fun p => 0 ≤ p ∧ p ≤ top) ?_ (.inr ⟨rfl, ?_⟩)
  · intro order horder
    obtain ⟨h, -, rfl⟩ := mem_map.1 horder
    exact hprices h
  · rw [(hq.repr.level t).count] at hcount
    obtain ⟨h, hh, hside⟩ := countP_pos_iff.1 (Nat.pos_of_ne_zero hcount)
    refine ⟨b.slot h, mem_map_of_mem hh, of_decide_eq_true hside, ?_⟩
    have hprice := hprices h
    cases s with
    | buy => exact .inl (decide_eq_true (show i64Min < _ by simp only [i64Min]; omega))
    | sell =>
      rcases lt_or_eq_of_le (hprice.2.trans hmax) with hlt | heq
      · exact .inl (decide_eq_true hlt)
      · exact .inr heq

theorem price_cancelOrder (b : Orderbook) (h x : Nat) :
    (((b.cancelOrder h).2).slot x).price = (b.slot x).price := by
  unfold cancelOrder
  by_cases hactive : (b.orders.get h).active = true
  · rw [if_neg (not_not.2 hactive)]
    have hunlink : ((b.unlinkOrder h).slot x).price = (b.slot x).price :=
      (OrderSlot.fields_of_data (data_unlinkOrder b h x)).2.2.2.2
    have hretire : ∀ b₁ : Orderbook,
      (((((b₁.orders.modify h fun s => { s with active := false }).free
        h)).slots x).price = (b₁.slot x).price) := by
      intro b₁
      unfold Slab.free Slab.modify
      dsimp only
      rcases eq_or_ne x h with rfl | hne
      · rw [update_self, update_self]
        rfl
      · rw [update_of_ne hne, update_of_ne hne]
        rfl
    refine (hretire _).trans ?_
    split_ifs
    · exact hunlink
    · exact hunlink
  · rw [if_pos hactive]

variable (hr : Ranged top b)
include hr

theorem cancelOrder (hq : Queued b q free) (htop : 0 ≤ top) (hmax : top ≤ i64Max)
    (h : Nat) : Ranged top (b.cancelOrder h).2 := by
  by_cases hactive : (b.slot h).active = true
  · obtain ⟨t, ht⟩ := (hq.active h).1 hactive
    obtain ⟨_, _, hsplit⟩ := append_of_mem ht
    obtain ⟨b', hcancel, hleaves⟩ := hq.cancelOrder hsplit
    have hprice : ∀ x, (b'.slot x).price = (b.slot x).price := by
      intro x
      have := price_cancelOrder b h x
      rwa [hcancel] at this
    have hprices : ∀ x, 0 ≤ (b'.slot x).price ∧ (b'.slot x).price ≤ top := fun x =>
      hprice x ▸ hr.price x
    rw [hcancel]
    refine ⟨hprices, fun s => ?_⟩
    by_cases hbest : s = (b.slot h).side ∧ t = b.bestTick s
    · obtain ⟨rfl, htick⟩ := hbest
      rw [(hleaves.refreshed htick).2]
      show 0 ≤ update b'.bestPx _ _ _ ∧ update b'.bestPx _ _ _ ≤ top
      rw [update_self]
      exact topAt hprices hleaves.queued htop hmax _ _
    · have hkept := hleaves.kept s (by
        by_contra hnot
        push Not at hnot
        exact hbest hnot)
      rw [hkept.2]
      exact hr.best s
  · have hsame : (b.cancelOrder h).2 = b := by
      unfold Orderbook.cancelOrder
      rw [if_pos (show ¬ (b.orders.get h).active = true from hactive)]
    rwa [hsame]

theorem modifyOrderQtyDown (hq : Queued b q free) (htop : 0 ≤ top)
    (hmax : top ≤ i64Max) (h : Nat) (newQty : Int) (userId orderIdHi orderIdLo : Nat) :
    Ranged top (b.modifyOrderQtyDown h newQty userId orderIdHi orderIdLo).2 := by
  unfold Orderbook.modifyOrderQtyDown
  dsimp only
  split_ifs
  · exact hr.cancelOrder hq htop hmax h
  · exact hr
  · refine hr.congr (fun x => ?_) rfl
    show (update b.orders.slots h _ x).price = (b.orders.slots x).price
    rcases eq_or_ne x h with rfl | hne
    · rw [update_self]
    · rw [update_of_ne hne]
  · exact hr

theorem cancelOrderChecked (hq : Queued b q free) (htop : 0 ≤ top)
    (hmax : top ≤ i64Max) (h userId orderIdHi orderIdLo : Nat) :
    Ranged top (b.cancelOrderChecked h userId orderIdHi orderIdLo).2 := by
  unfold Orderbook.cancelOrderChecked
  split_ifs
  · exact hr.cancelOrder hq htop hmax h
  · exact hr

theorem migrateOrders {fuel cursor : Nat}
    (hrun : migrateOrders fuel b cursor = some b') : Ranged top b' := by
  induction fuel generalizing b cursor with
  | zero => cases hrun
  | succ fuel ih =>
    unfold migrateOrders at hrun
    dsimp only at hrun
    split_ifs at hrun
    · cases hrun
      exact hr
    · refine ih (Ranged.improveBest ?_ _ _ (hr.price cursor)) hrun
      apply Ranged.linkTail
      refine hr.congr (fun x => ?_) rfl
      show (update b.orders.slots cursor _ x).price = (b.orders.slots x).price
      rcases eq_or_ne x cursor with rfl | hne
      · rw [update_self]
      · rw [update_of_ne hne]

theorem migrateSingleLevel (hrun : b.migrateSingleLevel oldIdx = some b') : Ranged top b' := by
  unfold Orderbook.migrateSingleLevel at hrun
  cases hlevels : b.oldLevels with
  | none =>
    rw [hlevels] at hrun
    exact Option.some.inj hrun ▸ hr
  | some =>
    cases hcompression : b.oldCompression with
    | none =>
      rw [hlevels, hcompression] at hrun
      exact Option.some.inj hrun ▸ hr
    | some =>
      simp only [hlevels, hcompression] at hrun
      split_ifs at hrun
      · exact Option.some.inj hrun ▸ hr
      · obtain ⟨_, hmigrate, hrun⟩ := Option.bind_eq_some_iff.1 hrun
        cases hrun
        exact (hr.migrateOrders hmigrate).congr (fun _ => rfl) rfl

theorem migrateFrom {slots : Nat}
    (hrun : migrateFrom slots oldIdx b = some b') : Ranged top b' := by
  induction slots generalizing b oldIdx with
  | zero => exact Option.some.inj hrun ▸ hr
  | succ slots ih =>
    obtain ⟨_, hlevel, hrun⟩ := Option.bind_eq_some_iff.1 hrun
    exact ih (hr.migrateSingleLevel hlevel) hrun

theorem recenterNow (htop : 0 ≤ top) {newMid : Int}
    (hrun : b.recenterNow newMid = some b') : Ranged top b' := by
  obtain ⟨b₁, htrigger, hrun⟩ := Option.bind_eq_some_iff.1 hrun
  have hreset : Ranged top (b.reset newMid) := ⟨hr.price, fun _ => ⟨le_rfl, htop⟩⟩
  have hlevel : (b.reset newMid).migrateSingleLevel (b.compression.priceToIndex newMid) = some b₁ :=
    htrigger
  have hr₁ : Ranged top b₁ := hreset.migrateSingleLevel hlevel
  unfold completeMigrationEager at hrun
  split_ifs at hrun
  · exact Option.some.inj hrun ▸ hr₁
  · obtain ⟨_, hmigrate, hrun⟩ := Option.bind_eq_some_iff.1 hrun
    cases hrun
    exact (hr₁.migrateFrom hmigrate).congr (fun _ => rfl) rfl

end Ranged

/-! ## Recentering -/

/-- A book whose map was built around a price within bounds, as every later one will be. -/
structure Anchored (b : Orderbook) : Prop where
  ranged : Ranged (maxPrice b.config.tickSize) b
  sized : ∃ midPrice, Sized b.config.tickSize midPrice ∧
    b.compression = new midPrice b.config.tickSize

namespace Anchored

variable {b b' : Orderbook} {q : Nat → List Nat} {free : List Nat}

theorem maxPrice_nonneg (tickSize : Int) : 0 ≤ maxPrice tickSize := by
  refine le_min (by decide) ?_
  omega

theorem maxPrice_le (tickSize : Int) : maxPrice tickSize ≤ i64Max :=
  (min_le_left ..).trans (by decide)

theorem new {config : BookConfig} {midPrice : Int} (hsized : Sized config.tickSize midPrice)
    (capacity : Nat) : Anchored (new config capacity midPrice) where
  ranged := Ranged.new (maxPrice_nonneg _) config capacity midPrice
  sized := ⟨midPrice, hsized, rfl⟩

variable (h : Anchored b)
include h

theorem priceToIndex_lt (p : Int) : b.compression.priceToIndex p < b.compression.totalSlots := by
  obtain ⟨_, hsized, heq⟩ := h.sized
  rw [heq]
  exact hsized.priceToIndex_lt p

theorem tick_le : 1000 * max b.config.tickSize 1 ≤ i64Max := by
  obtain ⟨_, hsized, -⟩ := h.sized
  exact hsized.tick_le

theorem of_frame (hframe : Frame b b')
    (hranged : Ranged (maxPrice b.config.tickSize) b') : Anchored b' where
  ranged := by
    rw [hframe.config]
    exact hranged
  sized := by
    rw [hframe.config, hframe.compression]
    exact h.sized

theorem sized_mid : Sized b.config.tickSize ((wrap64 (b.bestPx .buy + b.bestPx .sell)).tdiv 2) := by
  have hbid := h.ranged.best .buy
  have hask := h.ranged.best .sell
  have hhalf : maxPrice b.config.tickSize ≤ i64Max / 2 := min_le_left ..
  have hwrap : wrap64 (b.bestPx .buy + b.bestPx .sell) = b.bestPx .buy + b.bestPx .sell := by
    refine wrap64_of_nonneg (by omega) ?_
    omega
  have hmid : (b.bestPx .buy + b.bestPx .sell).tdiv 2 = (b.bestPx .buy + b.bestPx .sell) / 2 :=
    Int.tdiv_eq_ediv_of_nonneg (by omega)
  rw [hwrap]
  exact ⟨h.tick_le, by omega, by simp only [i64Max]; omega⟩

/-- **Recentering succeeds**, and keeps the orders. -/
theorem maybeRecenter (hk : Kept b q free) (htotal : b.exchange.totalQty ≤ i64Max) :
    ∃ b' q', Matching.maybeRecenter b = some b' ∧ Kept b' q' free ∧ Anchored b' ∧
      b'.held = b.held ∧ b'.config = b.config ∧ b'.orders.capacity = b.orders.capacity := by
  unfold Matching.maybeRecenter
  by_cases hone : b.bestTick .buy = NONE ∨ b.bestTick .sell = NONE
  · rw [if_pos hone]
    exact ⟨b, q, rfl, hk, h, rfl, rfl, rfl⟩
  rw [if_neg hone]
  set mid := (wrap64 (b.bestPx .buy + b.bestPx .sell)).tdiv 2
  by_cases hdrift : b.shouldRecenter mid = true
  · rw [if_pos hdrift]
    have hsized : Sized b.config.tickSize mid := h.sized_mid
    have hbounded : Bounded b q (CompressionMap.new mid b.config.tickSize) :=
      fun _ e _ => hsized.priceToIndex_lt e.order.price
    rcases hk.queued.recenterNow (hk.queued.totalQty_exchange ▸ htotal) mid with
      ⟨b', q', hrecenter, hr⟩ | ⟨-, hunbounded⟩
    · refine ⟨b', q', hrecenter, ⟨hr.queued, hr.indexed, ?_⟩, ⟨?_, mid, ?_⟩, hr.held, hr.config,
        hr.capacity⟩
      · rw [hr.capacity, hr.users, hr.held]
        exact hk.tallied
      · rw [hr.config]
        exact h.ranged.recenterNow (maxPrice_nonneg _) hrecenter
      · rw [hr.config]
        exact ⟨hsized, hr.compression⟩
    · exact absurd hbounded hunbounded
  · rw [if_neg hdrift]
    exact ⟨b, q, rfl, hk, h, rfl, rfl, rfl⟩

end Anchored

end Rsx.Marketdata
