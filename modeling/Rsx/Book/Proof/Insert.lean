import Rsx.Book.Proof.Match

/-!
# Orders that enter and leave

Linking an order at the tail of its slot, as `insert_resting` and the migration do, and taking one
out, as `cancel_order` does, keep the book standing.
-/

namespace Rsx.Book

open Function PriceTime HasQty Buckets List

variable {v : Nat → List Entry} {s : Side} {t u : Nat} {e e' : Entry}
  {q' : Nat → List Nat}

def joined (v : Nat → List Entry) (t : Nat) (e : Entry) : Nat → List Entry :=
  update v t (v t ++ [e])

theorem mem_update_append {α : Type} {q : Nat → List α} {x h : α} :
    x ∈ update q t (q t ++ [h]) u ↔ x ∈ q u ∨ u = t ∧ x = h := by
  by_cases hu : u = t
  · subst hu
    simp
  · simp [hu]

theorem mem_joined : e' ∈ joined v t e u ↔ e' ∈ v u ∨ u = t ∧ e' = e :=
  mem_update_append

theorem IsBest.joined (h : IsBest v s t e) (hle : e'.order.side = s →
    s.key e.order.price ≤ s.key e'.order.price) : IsBest (joined v u e') s t e := by
  refine ⟨mem_joined.2 (.inl h.mem), h.side, fun w x hx hs => ?_⟩
  rcases mem_joined.1 hx with hx | ⟨-, rfl⟩
  · exact h.best w x hx hs
  · exact hle hs

namespace Orderbook

variable {b b' : Orderbook} {q : Nat → List Nat} {free loose : List Nat} {h : Nat}
  {o : Resting}

theorem tracks_joined {bestTick : Nat} {bestPx : Int} (hnone : ∀ t, ∀ e ∈ v t, t ≠ NONE)
    (htracks : (bestTick = NONE ∧ bestPx = 0 ∧ SideEmpty v s) ∨
      ∃ x, IsBest v s bestTick x ∧ bestPx = x.order.price) (hs : e.order.side = s) :
    if bestTick = NONE ∨ s.improves e.order.price bestPx then IsBest (joined v t e) s t e
    else ∃ x, IsBest (joined v t e) s bestTick x ∧ bestPx = x.order.price := by
  have hmem : e ∈ joined v t e t := mem_joined.2 (.inr ⟨rfl, rfl⟩)
  split_ifs with hcond
  · refine ⟨hmem, hs, fun w x hx hxs => ?_⟩
    rcases mem_joined.1 hx with hx | ⟨-, rfl⟩
    · rcases htracks with ⟨-, -, hempty⟩ | ⟨y, hbest, hpx⟩
      · exact absurd hxs (hempty w x hx)
      · rcases hcond with htick | himproves
        · exact absurd htick (hnone _ y hbest.mem)
        · rw [hpx] at himproves
          exact (Side.improves_iff.1 himproves).le.trans (hbest.best w x hx hxs)
    · exact le_rfl
  · rw [not_or] at hcond
    obtain ⟨y, hbest, hpx⟩ := htracks.resolve_left fun h => hcond.1 h.1
    refine ⟨y, hbest.joined fun _ => ?_, hpx⟩
    rw [← hpx]
    exact not_lt.1 fun hlt => hcond.2 (Side.improves_iff.2 hlt)

theorem orders_improveBest (b : Orderbook) (s : Side) (t : Nat) (p : Int) :
    (b.improveBest s t p).orders = b.orders ∧ (b.improveBest s t p).activeLevels = b.activeLevels ∧
      (b.improveBest s t p).occ = b.occ ∧ (b.improveBest s t p).users = b.users ∧
      (b.improveBest s t p).eventBuf = b.eventBuf ∧ Frame b (b.improveBest s t p) := by
  unfold improveBest
  split_ifs
  · exact ⟨rfl, rfl, rfl, rfl, rfl, ⟨rfl, rfl, rfl, rfl, rfl, rfl, rfl⟩⟩
  · exact ⟨rfl, rfl, rfl, rfl, rfl, Frame.refl b⟩

theorem view_congr (horders : b'.orders = b.orders) (q : Nat → List Nat) :
    b'.view q = b.view q := by
  unfold view entry slot
  rw [horders]

theorem tracks_improveBest (htracks : ∀ s, Tracks b q s)
    (hnone : ∀ t, ∀ e ∈ b.view q t, t ≠ NONE) (hview : b'.view q' = joined (b.view q) t e)
    (htick : b'.bestTick = b.bestTick) (hpx : b'.bestPx = b.bestPx) (s : Side) :
    Tracks (b'.improveBest e.order.side t e.order.price) q' s := by
  have hviewI : (b'.improveBest e.order.side t e.order.price).view q' = joined (b.view q) t e := by
    rw [view_congr (orders_improveBest ..).1, hview]
  by_cases hs : s = e.order.side
  · subst hs
    have hjoin := tracks_joined (t := t) hnone (htracks e.order.side) rfl
    rw [← htick, ← hpx] at hjoin
    unfold Tracks
    rw [hviewI]
    right
    unfold improveBest
    by_cases hcond : b'.bestTick e.order.side = NONE ∨
        e.order.side.improves e.order.price (b'.bestPx e.order.side) = true
    · rw [if_pos hcond] at hjoin ⊢
      simp only [update_self]
      exact ⟨e, hjoin, rfl⟩
    · rw [if_neg hcond] at hjoin ⊢
      exact hjoin
  · have hsame : (b'.improveBest e.order.side t e.order.price).bestTick s = b.bestTick s ∧
        (b'.improveBest e.order.side t e.order.price).bestPx s = b.bestPx s := by
      unfold improveBest
      split_ifs
      · simp only [update_of_ne hs, htick, hpx, and_self]
      · rw [htick, hpx]
        exact ⟨rfl, rfl⟩
    refine (htracks s).congr hsame.1 hsame.2 fun u x hx => ?_
    rw [hviewI, mem_joined]
    constructor
    · rintro (hmem | ⟨-, rfl⟩)
      · exact hmem
      · exact absurd hx.symm hs
    · exact Or.inl

theorem entry_linkTail (b : Orderbook) (t h : Nat) (side : Side) (qty : Int) (x : Nat) :
    (b.linkTail t h side qty).entry x = b.entry x := by
  unfold entry
  rw [OrderSlot.resting_of_data (data_linkTail b t h side qty x)]

theorem view_linkTail (b : Orderbook) (q : Nat → List Nat) (t h : Nat) (side : Side) (qty : Int) :
    (b.linkTail t h side qty).view (update q t (q t ++ [h])) = joined (b.view q) t (b.entry h) := by
  have hentry : (b.linkTail t h side qty).entry = b.entry := funext (entry_linkTail b t h side qty)
  funext u
  unfold view joined
  rw [hentry]
  by_cases hu : u = t
  · subst hu
    rw [update_self, update_self, map_append, map_singleton]
  · rw [update_of_ne hu, update_of_ne hu]

theorem queueQty_view (b : Orderbook) (q : Nat → List Nat) (t : Nat) :
    b.queueQty (q t) = total (b.view q t) := by
  unfold total view
  rw [map_map]
  rfl

theorem Queued.total_view_le (hq : Queued b q free) (t : Nat) :
    total (b.view q t) ≤ total (b.entries q) := by
  by_cases ht : t < b.compression.totalSlots
  · have hperm := total_perm (contents_perm (q := b.view q) ht)
    rw [total_append] at hperm
    have hnonneg : 0 ≤ total (contents b.compression.totalSlots
        (update (b.view q) t [])) := by
      refine total_nonneg fun e he => ?_
      obtain ⟨u, -, he⟩ := mem_contents.1 he
      by_cases hu : u = t
      · rw [hu, update_self] at he
        exact absurd he not_mem_nil
      · rw [update_of_ne hu] at he
        exact hq.view_pos e he
    unfold entries
    omega
  · rw [view, hq.repr.outside t (by omega)]
    refine total_nonneg fun e he => ?_
    obtain ⟨_, -, he⟩ := mem_contents.1 he
    exact hq.view_pos e he

theorem length_entries (b : Orderbook) (q : Nat → List Nat) :
    (b.entries q).length = (contents b.compression.totalSlots q).length := by
  unfold entries view contents
  rw [← map_flatMap, length_map]

def insertOrder (b : Orderbook) (o : Resting) : Option (Nat × Orderbook) :=
  b.insertResting o.price o.remainingQty o.side o.tif o.userId o.reduceOnly o.timestampNs
    o.orderIdHi o.orderIdLo

def slotOf (b : Orderbook) (o : Resting) : OrderSlot :=
  { price := o.price, remainingQty := o.remainingQty, originalQty := o.remainingQty
    side := o.side, tif := o.tif, active := true, reduceOnly := o.reduceOnly, userId := o.userId
    tickIndex := b.compression.priceToIndex o.price, timestampNs := o.timestampNs
    orderIdHi := o.orderIdHi, orderIdLo := o.orderIdLo
    sequence := (b.sequence + 1) % 4294967296 }

theorem resting_slotOf (b : Orderbook) (horig : o.originalQty = o.remainingQty) :
    (slotOf b o).resting = o :=
  congrArg (fun x => ({ o with originalQty := x } : Resting)) horig.symm

theorem Standing.ne_none_of_mem (hst : Standing b q free) : ∀ t, ∀ e ∈ b.view q t, t ≠ NONE := by
  intro t e he
  have hlt := hst.exact.priceToIndex_lt e.order.price
  rw [(hst.placed t e he).index] at hlt
  have := hst.exact.total_lt
  unfold NONE
  omega

/-- What resting the order `o` under the handle `h` in slot `t` gives, whatever the map. -/
structure Joins (b : Orderbook) (q : Nat → List Nat) (o : Resting) (t h : Nat) (b' : Orderbook)
    (free' : List Nat) : Prop where
  queued : Queued b' (update q t (q t ++ [h])) free'
  view : b'.view (update q t (q t ++ [h])) = joined (b.view q) t ⟨h, o⟩
  frame : Frame b b'
  users : b'.users = b.users.addOrder o.userId
  events : b'.eventBuf = b.eventBuf
  fresh : b.held h = none
  held : b'.held = update b.held h (some o)
  tracks : (∀ s, Tracks b q s) → (∀ t, ∀ e ∈ b.view q t, t ≠ NONE) →
    ∀ s, Tracks b' (update q t (q t ++ [h])) s

theorem Queued.exists_alloc (hq : Queued b q free)
    (hfull : (b.entries q).length < b.orders.capacity) :
    ∃ h orders, b.orders.alloc = some (h, orders) := by
  cases halloc : b.orders.alloc with
  | none =>
    have := hq.repr.alloc_eq_none halloc
    rw [length_entries] at hfull
    omega
  | some x => exact ⟨x.1, x.2, rfl⟩

theorem Queued.insertOrder (hq : Queued b q free) {orders : Slab OrderSlot}
    (halloc : b.orders.alloc = some (h, orders)) (horig : o.originalQty = o.remainingQty)
    (hindex : b.compression.priceToIndex o.price = t) (ht : t < b.compression.totalSlots)
    (hqty : 0 < o.remainingQty) (hsum : total (b.view q t) + o.remainingQty ≤ i64Max) :
    ∃ b' free', b.insertOrder o = some (h, b') ∧ Joins b q o t h b' free' := by
  obtain ⟨hslots, hcap, free', hloose⟩ := hq.repr.alloc halloc
  have hnew : ∀ u, h ∉ q u := hloose.loose_notMem mem_cons_self
  -- The book with the new slot written, before the link.
  let b₁ : Orderbook :=
    { b with orders := orders.modify h fun _ => slotOf b o, sequence := b.sequence + 1 }
  have hslot : ∀ x, b₁.slot x = if x = h then slotOf b o else b.slot x := by
    intro x
    show update orders.slots h (slotOf b o) x = _
    rw [update_apply, hslots]
    rfl
  have hrepr₁ : Repr b₁ q [h] free' :=
    (hloose.modifySlot_loose fun _ => slotOf b o).congr rfl rfl rfl rfl rfl rfl rfl rfl
      fun _ _ _ => ⟨rfl, rfl, rfl⟩
  have hview₁ : b₁.view q = b.view q := by
    funext u
    refine map_congr_left fun x hx => ?_
    rw [entry, entry, hslot, if_neg fun heq : x = h => hnew u (heq ▸ hx)]
  have hentry : b₁.entry h = ⟨h, o⟩ := by
    rw [entry, hslot, if_pos rfl, resting_slotOf b horig]
  set b₂ := b₁.linkTail t h o.side o.remainingQty with hb₂
  set b₃ := b₂.improveBest o.side t o.price with hb₃
  have hrun : b.insertOrder o = some (h, { b₃ with users := b₃.users.addOrder o.userId }) := by
    unfold Orderbook.insertOrder insertResting
    rw [halloc]
    simp only [hindex, if_pos ht]
    rw [hb₃, hb₂, ← hindex]
    rfl
  have hslotAt : b₁.slot h = slotOf b o := by rw [hslot, if_pos rfl]
  have hrepr₂ : Repr b₂ (update q t (q t ++ [h])) [] free' := by
    refine hrepr₁.linkTail ht ?_ ?_ ?_ hqty.le ?_
    · rw [hslotAt]
      exact hindex
    · rw [hslotAt]
      rfl
    · rw [hslotAt]
      rfl
    · rw [queueQty_view, hview₁]
      exact hsum
  have hview₂ : b₂.view (update q t (q t ++ [h])) = joined (b.view q) t ⟨h, o⟩ := by
    rw [view_linkTail, hview₁, hentry]
  have hdata := data_linkTail b₁ t h o.side o.remainingQty
  have hfield := fun x => OrderSlot.fields_of_data (hdata x)
  have hq₂ : Queued b₂ (update q t (q t ++ [h])) free' := by
    refine ⟨hrepr₂, fun x => ?_, fun u x hx => ?_⟩
    · rw [(hfield x).2.2.2.1, hslot]
      simp only [mem_update_append]
      split_ifs with hx
      · exact ⟨fun _ => ⟨t, .inr ⟨rfl, hx⟩⟩, fun _ => rfl⟩
      · rw [hq.active x]
        simp [hx]
    · rw [(hfield x).2.2.1, hslot]
      split_ifs with hxh
      · exact hqty
      · rcases mem_update_append.1 hx with hx | ⟨-, hx⟩
        · exact hq.pos u x hx
        · exact absurd hx hxh
  have hframe₂ : Frame b b₂ :=
    ⟨rfl, rfl, rfl, rfl, rfl, rfl, (slab_linkTail b₁ t h o.side o.remainingQty).2.2.trans hcap⟩
  obtain ⟨horders, hlevels, hocc, husers, hevents, hframe⟩ :=
    orders_improveBest b₂ o.side t o.price
  refine ⟨_, free', hrun,
    { queued := hq₂.congr horders hlevels hocc hframe.compression
      view := (view_congr horders _).trans hview₂
      frame := (hframe₂.trans hframe).setUsers _
      users := congrArg (UserRegistry.addOrder · o.userId) husers
      events := hevents
      fresh := ?_
      held := ?_
      tracks := fun htracks hnone s => tracks_improveBest htracks hnone hview₂ rfl rfl s }⟩
  · refine if_neg fun hactive => ?_
    obtain ⟨u, hu⟩ := (hq.active h).1 hactive
    exact hnew u hu
  · have hheld₃ : b₃.held = b₂.held := funext fun x => held_congr (by
      unfold slot
      rw [horders])
    show b₃.held = _
    rw [hheld₃]
    funext x
    rw [held_congr (hdata x)]
    unfold held
    by_cases hx : x = h
    · rw [hx, update_self, hslotAt, resting_slotOf b horig]
      rfl
    · rw [update_of_ne hx, hslot, if_neg hx]

theorem insertOrder_spec (hst : Standing b q free)
    (horig : o.originalQty = o.remainingQty) (hplaces : b.compression.Places t o.price)
    (hqty : 0 < o.remainingQty) (hsum : total (b.entries q) + o.remainingQty ≤ i64Max)
    (hfull : (b.entries q).length < b.orders.capacity) :
    ∃ h b' free', b.insertOrder o = some (h, b') ∧ Joins b q o t h b' free' ∧
      Standing b' (update q t (q t ++ [h])) free' := by
  have hq := hst.queued
  obtain ⟨h, _, halloc⟩ := hq.exists_alloc hfull
  have hlt : t < b.compression.totalSlots := hplaces.index ▸ hst.exact.priceToIndex_lt o.price
  have hview := hq.total_view_le t
  obtain ⟨b', free', hrun, hj⟩ :=
    hq.insertOrder halloc horig hplaces.index hlt hqty (by omega)
  have hcomp := hj.frame.compression
  refine ⟨h, b', free', hrun, hj, hj.queued, ?_, ?_, ?_, hj.tracks hst.tracks hst.ne_none_of_mem⟩
  · rw [hcomp]
    exact hst.exact
  · rw [hj.frame.priceAsc, hcomp, hst.asc]
  · rw [hcomp, hj.view]
    intro u x hx
    rcases mem_joined.1 hx with hx | ⟨rfl, rfl⟩
    · exact hst.placed u x hx
    · exact hplaces

theorem insertOrder_full (hq : Queued b q free)
    (hfull : (b.entries q).length = b.orders.capacity) : b.insertOrder o = none := by
  have halloc : b.orders.alloc = none := by
    by_contra hne
    obtain ⟨_, hx⟩ := Option.ne_none_iff_exists'.1 hne
    obtain ⟨-, _, _, hloose⟩ := hq.repr.alloc hx
    have hlen := hloose.cover.length_eq
    have hbump := hloose.bump_le
    rw [length_entries] at hfull
    simp only [length_append, length_singleton, length_range] at hlen
    simp only at hbump
    omega
  unfold Orderbook.insertOrder insertResting
  rw [halloc]
  rfl

theorem Standing.filter_entries (hst : Standing b q free) (s : Side) (p : Int) :
    (b.entries q).filter (atPrice s p) =
      (b.view q (b.compression.priceToIndex p)).filter (atPrice s p) := by
  refine filter_contents (hst.exact.priceToIndex_lt p) fun u hu e he hat => hu ?_
  rw [← (hst.placed u e he).index, (of_decide_eq_true hat).2]

section Cancel

variable {l₁ l₂ : List Nat}

theorem Repr.topAt_retire (hb : Repr b q [h] free) (s : Side) (t : Nat) :
    (b.retire h).topAt s t = b.topAt s t := by
  have hslot : ∀ x ∈ q t, (b.retire h).slot x = b.slot x := fun x hx =>
    slot_retire b h x fun heq => hb.loose_notMem mem_cons_self t (heq ▸ hx)
  have hretired : Repr (b.retire h) q [] (h :: free) := (hb.modifySlot_loose _).release
  have horders : (b.retire h).levelOrders t = b.levelOrders t := by
    rw [hretired.levelOrders_eq, hb.levelOrders_eq]
    exact map_congr_left hslot
  have hhead : (b.activeLevels t).count s ≠ 0 →
      (b.retire h).orders.get (b.activeLevels t).head = b.orders.get (b.activeLevels t).head := by
    intro hcount
    refine hslot _ ?_
    rw [(hb.level t).count] at hcount
    rw [(hb.level t).head]
    cases hqt : q t with
    | nil => simp [hqt] at hcount
    | cons => exact mem_cons_self
  unfold topAt
  by_cases hcount : (b.activeLevels t).count s = 0
  · have hcount' : ((b.retire h).activeLevels t).count s = 0 := hcount
    simp only [hcount, hcount', if_true]
  · have hhead' : ((b.retire h).orders.get ((b.retire h).activeLevels t).head).price =
        (b.orders.get (b.activeLevels t).head).price := congrArg OrderSlot.price (hhead hcount)
    simp only [horders, hhead']
    rfl

theorem Repr.retire_refreshBest (hb : Repr b q [h] free) (s : Side) :
    (b.refreshBest s).retire h = (b.retire h).refreshBest s := by
  have htop : ((b.retire h).topAt s (b.scanNext s)).1 = (b.topAt s (b.scanNext s)).1 := by
    rw [hb.topAt_retire]
  have hbest : (b.refreshBest s).bestPx = ((b.retire h).refreshBest s).bestPx :=
    (congrArg (update b.bestPx s) htop).symm
  have hrest : ({ (b.retire h).refreshBest s with bestPx := (b.refreshBest s).bestPx } :
      Orderbook) = (b.refreshBest s).retire h := rfl
  rw [← hrest, hbest]

theorem Tracks.remove (htracks : Tracks b q s)
    (htick : b'.bestTick s = b.bestTick s) (hpx : b'.bestPx s = b.bestPx s)
    (hsub : ∀ u, ∀ e ∈ b'.view q' u, e ∈ b.view q u)
    (hkeep : ∀ e ∈ b.view q (b.bestTick s), e.order.side = s → e ∈ b'.view q' (b.bestTick s)) :
    Tracks b' q' s := by
  unfold Tracks at htracks ⊢
  rw [htick, hpx]
  rcases htracks with ⟨hnone, hzero, hempty⟩ | ⟨e, hbest, hprice⟩
  · exact .inl ⟨hnone, hzero, fun u e he => hempty u e (hsub u e he)⟩
  · exact .inr ⟨e, ⟨hkeep e hbest.mem hbest.side, hbest.side,
      fun u x hx hs => hbest.best u x (hsub u x hx) hs⟩, hprice⟩

theorem cancelOrder_eq (hactive : (b.slot h).active = true) : b.cancelOrder h =
      let side := (b.slot h).side
      let b₁ := b.unlinkOrder h
      let b₂ := if (b.slot h).tickIndex = b.bestTick side then b₁.refreshBest side else b₁
      (true, { b₂.retire h with users := b₂.users.removeOrder (b.slot h).userId }) :=
  if_neg (not_not.2 hactive)

/-- What taking the order under `h` out of slot `t` gives, whatever the map.  The best price of its
side is found again when the slot was the best one. -/
structure Leaves (b : Orderbook) (q : Nat → List Nat) (t : Nat) (l₁ : List Nat) (h : Nat)
    (l₂ free : List Nat) (b' : Orderbook) : Prop where
  queued : Queued b' (update q t (l₁ ++ l₂)) (h :: free)
  view : b'.view (update q t (l₁ ++ l₂)) = update (b.view q) t (l₁.map b.entry ++ l₂.map b.entry)
  frame : Frame b b'
  users : b'.users = b.users.removeOrder (b.slot h).userId
  events : b'.eventBuf = b.eventBuf
  held : b'.held = update b.held h none
  refreshed : t = b.bestTick (b.slot h).side →
    b'.bestTick (b.slot h).side = (b'.refreshBest (b.slot h).side).bestTick (b.slot h).side ∧
      b'.bestPx (b.slot h).side = (b'.refreshBest (b.slot h).side).bestPx (b.slot h).side
  kept : ∀ s, s ≠ (b.slot h).side ∨ t ≠ b.bestTick s →
    b'.bestTick s = b.bestTick s ∧ b'.bestPx s = b.bestPx s

theorem Leaves.view_subset (hl : Leaves b q t l₁ h l₂ free b') (hsplit : q t = l₁ ++ h :: l₂)
    (he : e ∈ b'.view (update q t (l₁ ++ l₂)) u) : e ∈ b.view q u := by
  rw [hl.view] at he
  by_cases hu : u = t
  · subst hu
    rw [update_self, ← map_append] at he
    rw [Orderbook.view, hsplit]
    obtain ⟨x, hx, rfl⟩ := mem_map.1 he
    refine mem_map_of_mem ?_
    simp only [mem_append, mem_cons] at hx ⊢
    tauto
  · rwa [update_of_ne hu] at he

theorem Queued.cancelOrder (hq : Queued b q free) (hsplit : q t = l₁ ++ h :: l₂) :
    ∃ b', b.cancelOrder h = (true, b') ∧ Leaves b q t l₁ h l₂ free b' := by
  have hmem : h ∈ q t := by rw [hsplit]; simp
  have hactive : (b.slot h).active = true := (hq.active h).2 ⟨t, hmem⟩
  have htick : (b.slot h).tickIndex = t := (hq.repr.level t).tick h hmem
  set q' := update q t (l₁ ++ l₂) with hq'
  set b₁ := b.unlinkOrder h with hb₁
  have hrepr₁ : Repr b₁ q' [h] free := hq.repr.unlinkOrder hsplit
  have hremoved : Queued (b₁.retire h) q' (h :: free) :=
    hq.repr.remove hsplit hq.active fun u x hx _ => hq.pos u x hx
  have hview : (b₁.retire h).view q' = update (b.view q) t (l₁.map b.entry ++ l₂.map b.entry) :=
    hq.repr.view_remove hsplit fun x hx => entry_remove b hx
  have hframe : Frame b (b₁.retire h) :=
    ⟨rfl, rfl, rfl, rfl, rfl, rfl, (slab_unlinkOrder b h).2.2⟩
  have hheld : (b₁.retire h).held = update b.held h none := by
    rw [held_retire, held_unlinkOrder]
  set side := (b.slot h).side with hside
  by_cases hbest : t = b.bestTick side
  · have hrun : b.cancelOrder h = (true, { (b₁.refreshBest side).retire h with
        users := b.users.removeOrder (b.slot h).userId }) := by
      rw [cancelOrder_eq hactive]
      simp only [htick, ← hside, if_pos hbest, ← hb₁]
      rfl
    rw [hrepr₁.retire_refreshBest] at hrun
    have hne : ∀ s, s ≠ side ∨ t ≠ b.bestTick s → s ≠ side := fun s hs heq =>
      hs.elim (· heq) (· (heq ▸ hbest))
    exact ⟨_, hrun,
      { queued := (hremoved.refreshBest side).congr rfl rfl rfl rfl
        view := hview
        frame := hframe.trans ⟨rfl, rfl, rfl, rfl, rfl, rfl, rfl⟩
        users := rfl
        events := rfl
        held := hheld
        refreshed := fun _ => by
          rw [← hside]
          unfold Orderbook.refreshBest
          simp only [update_self]
          exact ⟨rfl, rfl⟩
        kept := fun s hs => ⟨update_of_ne (hne s hs) .., update_of_ne (hne s hs) ..⟩ }⟩
  · have hrun : b.cancelOrder h = (true, { b₁.retire h with
        users := b.users.removeOrder (b.slot h).userId }) := by
      rw [cancelOrder_eq hactive]
      simp only [htick, ← hside, if_neg hbest, ← hb₁]
      rfl
    exact ⟨_, hrun,
      { queued := hremoved.congr rfl rfl rfl rfl
        view := hview
        frame := hframe.trans ⟨rfl, rfl, rfl, rfl, rfl, rfl, rfl⟩
        users := rfl
        events := rfl
        held := hheld
        refreshed := fun heq => absurd heq hbest
        kept := fun _ _ => ⟨rfl, rfl⟩ }⟩

theorem cancelOrder_spec (hst : Standing b q free) (hsplit : q t = l₁ ++ h :: l₂) :
    ∃ b', b.cancelOrder h = (true, b') ∧ Leaves b q t l₁ h l₂ free b' ∧
      Standing b' (update q t (l₁ ++ l₂)) (h :: free) := by
  obtain ⟨b', hrun, hl⟩ := hst.queued.cancelOrder hsplit
  set q' := update q t (l₁ ++ l₂) with hq'
  have hcomp := hl.frame.compression
  have hplaced : Placed b.compression (b'.view q') := fun u e he =>
    hst.placed u e (hl.view_subset hsplit he)
  -- Entries of the other side, or of other slots, are not the removed one.
  have hkeep : ∀ s u, s ≠ (b.slot h).side ∨ u ≠ t → ∀ e ∈ b.view q u, e.order.side = s →
      e ∈ b'.view q' u := by
    intro s u hor e he hs
    rw [hl.view]
    by_cases hu : u = t
    · subst hu
      rw [update_self, ← map_append]
      rw [view, hsplit] at he
      obtain ⟨x, hx, rfl⟩ := mem_map.1 he
      have hne : x ≠ h := fun heq => (hor.resolve_right fun h => h rfl) (heq ▸ hs.symm)
      refine mem_map_of_mem ?_
      simp only [mem_append, mem_cons] at hx ⊢
      tauto
    · rwa [update_of_ne hu]
  have htracks : ∀ s, Tracks b' q' s := by
    intro s
    by_cases hscan : s = (b.slot h).side ∧ t = b.bestTick s
    · -- The best slot of the side was scanned again.
      obtain ⟨rfl, hbest⟩ := hscan
      obtain ⟨htick, hpx⟩ := hl.refreshed hbest
      have hrefreshed := hl.queued.tracks_refreshBest (hcomp ▸ hst.exact)
        (by rw [hl.frame.priceAsc, hcomp, hst.asc]) (hcomp ▸ hplaced) (b.slot h).side
      exact hrefreshed.congr htick hpx fun _ _ _ => Iff.rfl
    · rw [not_and_or] at hscan
      obtain ⟨htick, hpx⟩ := hl.kept s hscan
      exact (hst.tracks s).remove htick hpx (fun _ _ => hl.view_subset hsplit)
        (hkeep s _ (hscan.imp_right Ne.symm))
  refine ⟨b', hrun, hl, hl.queued, ?_, ?_, ?_, htracks⟩
  · rw [hcomp]
    exact hst.exact
  · rw [hl.frame.priceAsc, hcomp, hst.asc]
  · rw [hcomp]
    exact hplaced

end Cancel

end Orderbook

end Rsx.Book
