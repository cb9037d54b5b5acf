import Rsx.Book.Migration
import Rsx.Book.Proof.Insert

/-!
# Recentering keeps the queues

`recenter_now` relinks every resting order under a new map.  All orders of one price come from one
old slot, in its list order, so the queue of every price is the same afterwards.
-/

namespace Rsx.Book.Orderbook

open Function LinkedList PriceTime HasQty Buckets List CompressionMap Orderbook

variable {b₀ b b' : Orderbook} {q₀ q rest : Nat → List Nat} {free loose loose' : List Nat} {h : Nat}
  {i fuel : Nat} {l : List Nat}

theorem Repr.perm_loose (hb : Repr b q loose free) (hperm : loose.Perm loose') :
    Repr b q loose' free :=
  { hb with
    cover := ((hperm.append_left _).append_right _).symm.trans hb.cover }

structure Accepts (b₀ : Orderbook) (q₀ : Nat → List Nat) (m : CompressionMap) : Prop where
  exact : m.Exact
  aligned : ∀ t, ∀ e ∈ b₀.view q₀ t, m.tickSize ∣ e.order.price
  regular : ∀ t, ∀ e ∈ b₀.view q₀ t, m.Regular e.order.price

/-- The order in which the orders of `b₀` moved to `b` or wait in `rest`. -/
structure Orderly (b₀ : Orderbook) (q₀ : Nat → List Nat) (b : Orderbook)
    (q rest : Nat → List Nat) : Prop where
  tracks : ∀ s, Tracks b q s
  placed : Placed b.compression (b.view q)
  queue : ∀ s p, (b.view q (b.compression.priceToIndex p)).filter (atPrice s p) ++
    ((rest (b₀.compression.priceToIndex p)).map b₀.entry).filter (atPrice s p) =
      (b₀.view q₀ (b₀.compression.priceToIndex p)).filter (atPrice s p)

/-- A migration of the book `b₀` in progress: `b` has the queues `q` under the new map, and the
orders of `rest` still wait in the lists of the old slots. -/
structure Migrating (b₀ : Orderbook) (q₀ : Nat → List Nat) (free : List Nat) (b : Orderbook)
    (q rest : Nat → List Nat) : Prop where
  repr : Repr b q (contents b₀.compression.totalSlots rest) free
  bump : b.orders.bumpNext = b₀.orders.bumpNext
  sub : ∀ i, ∀ h ∈ rest i, h ∈ q₀ i
  path : ∀ i, Path b.nextOf (rest i) NONE
  entry : ∀ h, b.entry h = b₀.entry h
  active : ∀ h, (b.slot h).active = (b₀.slot h).active
  indexed : Indexed b.compression (b.view q)
  orderly : Standing b₀ q₀ free → Accepts b₀ q₀ b.compression → Orderly b₀ q₀ b q rest

theorem Migrating.perm (hm : Migrating b₀ q₀ free b q rest) (hq₀ : Queued b₀ q₀ free) :
    (contents b.compression.totalSlots q ++ contents b₀.compression.totalSlots rest).Perm
      (contents b₀.compression.totalSlots q₀) := by
  have hcover := hm.repr.cover
  rw [hm.bump] at hcover
  have hcover₀ := hq₀.repr.cover
  rw [append_nil] at hcover₀
  exact (perm_append_right_iff free).1 (hcover.trans hcover₀.symm)

/-! ## The move of one order -/

section Move

variable (b : Orderbook) (h : Nat)

def linked : Orderbook :=
  let t := b.compression.priceToIndex (b.slot h).price
  (b.modifySlot h fun s => { s with tickIndex := t }).linkTail t h (b.slot h).side
    (b.slot h).remainingQty

def moved : Orderbook :=
  (b.linked h).improveBest (b.slot h).side (b.compression.priceToIndex (b.slot h).price)
    (b.slot h).price

theorem fields_setTick (t x : Nat) :
    let b₁ := b.modifySlot h fun s => { s with tickIndex := t }
    (b₁.slot x).next = (b.slot x).next ∧ (b₁.slot x).active = (b.slot x).active ∧
      (b₁.slot x).resting = (b.slot x).resting := by
  intro b₁
  rw [slot_modifySlot]
  split_ifs with hx
  · rw [hx]
    exact ⟨rfl, rfl, rfl⟩
  · exact ⟨rfl, rfl, rfl⟩

theorem view_setTick (t : Nat) (q : Nat → List Nat) :
    (b.modifySlot h fun s => { s with tickIndex := t }).view q = b.view q :=
  funext fun _ => map_congr_left fun x _ => congrArg (Entry.mk x) (b.fields_setTick h t x).2.2

theorem frame_moved :
    Frame b (b.moved h) ∧ (b.moved h).users = b.users ∧ (b.moved h).eventBuf = b.eventBuf := by
  obtain ⟨-, -, -, husers, hevents, hframe⟩ := orders_improveBest (b.linked h) (b.slot h).side
    (b.compression.priceToIndex (b.slot h).price) (b.slot h).price
  have hlinked : Frame b (b.linked h) := ⟨rfl, rfl, rfl, rfl, rfl, rfl, (slab_linkTail ..).2.2⟩
  exact ⟨hlinked.trans hframe, husers, hevents⟩

theorem orders_moved : (b.moved h).orders = (b.linked h).orders :=
  (orders_improveBest ..).1

theorem slot_moved (x : Nat) : ((b.moved h).slot x).active = (b.slot x).active ∧
    ((b.moved h).slot x).resting = (b.slot x).resting := by
  obtain ⟨-, hactive, hresting⟩ :=
    b.fields_setTick h (b.compression.priceToIndex (b.slot h).price) x
  have hdata := data_linkTail (b.modifySlot h fun s =>
    { s with tickIndex := b.compression.priceToIndex (b.slot h).price })
    (b.compression.priceToIndex (b.slot h).price) h (b.slot h).side (b.slot h).remainingQty x
  rw [slot, orders_moved]
  exact ⟨(OrderSlot.fields_of_data hdata).2.2.2.1.trans hactive,
    (OrderSlot.resting_of_data hdata).trans hresting⟩

theorem view_linked (q : Nat → List Nat) :
    let t := b.compression.priceToIndex (b.slot h).price
    (b.linked h).view (update q t (q t ++ [h])) = joined (b.view q) t (b.entry h) := by
  intro t
  have hentry : (b.modifySlot h fun s => { s with tickIndex := t }).entry h = b.entry h :=
    congrArg (Entry.mk h) (b.fields_setTick h t h).2.2
  rw [linked, view_linkTail, view_setTick, hentry]

variable {b h}

theorem Repr.moved (hb : Repr b q (h :: loose) free)
    (hlt : b.compression.priceToIndex (b.slot h).price < b.compression.totalSlots)
    (hqty : 0 ≤ (b.slot h).remainingQty)
    (hfits : ∀ t, b.queueQty (q t) + (b.slot h).remainingQty ≤ i64Max) :
    let t := b.compression.priceToIndex (b.slot h).price
    Repr (b.moved h) (update q t (q t ++ [h])) loose free := by
  intro t
  have hslot : (b.modifySlot h fun s => { s with tickIndex := t }).slot h =
      { b.slot h with tickIndex := t } := by rw [slot_modifySlot, if_pos rfl]
  have hlinked : Repr (b.linked h) (update q t (q t ++ [h])) loose free := by
    refine (hb.modifySlot_loose _).linkTail hlt ?_ ?_ ?_ hqty ?_
    · rw [hslot]
    · rw [hslot]
    · rw [hslot]
    · rw [queueQty_view, view_setTick, ← queueQty_view]
      exact hfits t
  obtain ⟨horders, hlevels, hocc, -, -, hframe⟩ :=
    orders_improveBest (b.linked h) (b.slot h).side t (b.slot h).price
  have hslots : (b.moved h).slot = (b.linked h).slot := congrArg Slab.slots horders
  exact hlinked.congr hlevels hocc hframe.compression (congrArg Slab.freeHead horders)
    (congrArg Slab.bumpNext horders) (congrArg Slab.capacity horders)
    (congrArg (fun slots x => (slots x).next) hslots)
    (congrArg (fun slots x => (slots x).prev) hslots)
    fun _ x _ => by rw [hslots]; exact ⟨rfl, rfl, rfl⟩

/-- A list of orders that wait is not touched. -/
theorem Repr.path_moved (hb : Repr b q (h :: loose) free) (hpath : Path b.nextOf l NONE)
    (hl : ∀ x ∈ l, x ∈ loose) : Path (b.moved h).nextOf l NONE := by
  have hnext : (b.moved h).nextOf = (b.linked h).nextOf :=
    congrArg (fun orders x => (orders.slots x).next) (b.orders_moved h)
  have hset : Path (b.modifySlot h fun s =>
      { s with tickIndex := b.compression.priceToIndex (b.slot h).price }).nextOf l NONE := by
    rw [show Orderbook.nextOf _ = b.nextOf from funext fun x => (b.fields_setTick h _ x).1]
    exact hpath
  have hb₁ := hb.modifySlot_loose fun s =>
    { s with tickIndex := b.compression.priceToIndex (b.slot h).price }
  rw [hnext]
  refine hb₁.path_linkTail_of_disjoint hset ?_ ?_ _ _
  · exact fun hx => (nodup_cons.1 hb.nodup_loose).1 (hl h hx)
  · exact fun x hx hxl => hb₁.loose_notMem (mem_cons_of_mem h (hl x hxl)) _ hx

end Move

section

variable (hm : Migrating b₀ q₀ free b q rest)
include hm

theorem Migrating.mem_front (hrest : rest i = h :: l) : h ∈ q₀ i :=
  hm.sub i h (by rw [hrest]; exact mem_cons_self)

theorem migrateOrders_cons (hrest : rest i = h :: l) (hne : h ≠ NONE) :
    migrateOrders (fuel + 1) b h =
      if b.compression.priceToIndex (b.slot h).price < b.compression.totalSlots then
        migrateOrders fuel (b.moved h) (l.headD NONE)
      else none := by
  have hpath := hm.path i
  rw [hrest] at hpath
  have hnext : (b.orders.get h).next = l.headD NONE := hpath.1
  rw [migrateOrders, if_neg hne]
  simp only [hnext]
  rfl

theorem Migrating.fits (hq₀ : Queued b₀ q₀ free)
    (hsum : total (b₀.entries q₀) ≤ i64Max) (hrest : rest i = h :: l)
    (t : Nat) : b.queueQty (q t) + (b.slot h).remainingQty ≤ i64Max := by
  have hmem : h ∈ contents b₀.compression.totalSlots rest := by
    refine mem_contents.2 ⟨i, hq₀.repr.lt_total (hm.mem_front hrest), ?_⟩
    rw [hrest]
    exact mem_cons_self
  have hnodup : (q t ++ [h]).Nodup := by
    refine nodup_append.2 ⟨hm.repr.nodup_queue t, nodup_singleton h, ?_⟩
    intro x hx y hy heq
    rw [mem_singleton.1 hy] at heq
    exact hm.repr.loose_notMem hmem t (heq ▸ hx)
  have hsub : q t ++ [h] ⊆ contents b₀.compression.totalSlots q₀ := by
    intro x hx
    refine (hm.perm hq₀).mem_iff.1 (mem_append.2 ?_)
    rcases mem_append.1 hx with hx | hx
    · exact .inl (mem_contents.2 ⟨t, hm.repr.lt_total hx, hx⟩)
    · exact .inr (mem_singleton.1 hx ▸ hmem)
  have hqty : ∀ x, (b.slot x).remainingQty = (b₀.slot x).remainingQty := fun x =>
    congrArg (fun e => e.order.remainingQty) (hm.entry x)
  have hle : b₀.queueQty (q t ++ [h]) ≤ b₀.queueQty (contents b₀.compression.totalSlots q₀) := by
    obtain ⟨_, hperm, hl'⟩ := hnodup.subperm hsub
    unfold queueQty
    rw [← (hperm.map _).sum_eq]
    refine (hl'.map _).sum_le_sum fun x hx => ?_
    obtain ⟨y, hy, rfl⟩ := mem_map.1 hx
    obtain ⟨u, -, hy⟩ := mem_contents.1 hy
    exact (hq₀.pos u y hy).le
  have htotal : b₀.queueQty (contents b₀.compression.totalSlots q₀) = total (b₀.entries q₀) := by
    unfold queueQty total entries view contents
    rw [← map_flatMap, map_map]
    rfl
  have hsame : b.queueQty (q t) = b₀.queueQty (q t) := by
    unfold queueQty
    simp only [hqty]
  rw [queueQty_append, queueQty_singleton] at hle
  rw [hqty]
  omega

omit hm in
theorem mem_of_mem_update (hrest : rest i = h :: l) {j x : Nat} (hx : x ∈ update rest i l j) :
    x ∈ rest j := by
  by_cases hj : j = i
  · subst hj
    rw [update_self] at hx
    rw [hrest]
    exact mem_cons_of_mem h hx
  · rwa [update_of_ne hj] at hx

/-- The waiting orders are `h` and those that wait without it. -/
theorem Migrating.waiting (hq₀ : Queued b₀ q₀ free) (hrest : rest i = h :: l) :
    Repr b q (h :: contents b₀.compression.totalSlots (update rest i l)) free := by
  have hin : i < b₀.compression.totalSlots :=
    hq₀.repr.lt_total (hm.mem_front hrest)
  have h₁ := contents_perm (q := rest) hin
  have h₂ := contents_update_perm (q := rest) hin l
  rw [hrest] at h₁
  exact hm.repr.perm_loose (h₁.trans (h₂.cons h).symm)

theorem Migrating.path_moved (hq₀ : Queued b₀ q₀ free) (hrest : rest i = h :: l) (j : Nat) :
    Path (b.moved h).nextOf (update rest i l j) NONE := by
  refine (hm.waiting hq₀ hrest).path_moved ?_ fun x hx => ?_
  · by_cases hj : j = i
    · subst hj
      have hpath := hm.path j
      rw [hrest] at hpath
      rw [update_self]
      exact hpath.2
    · rw [update_of_ne hj]
      exact hm.path j
  · have hmem := hm.sub j x (mem_of_mem_update hrest hx)
    exact mem_contents.2 ⟨j, hq₀.repr.lt_total hmem, hx⟩

/-- The queue of every price, where `h` moves from the front of the waiting list to the back. -/
theorem Migrating.queue_moved (hrest : rest i = h :: l)
    (hindex : b₀.compression.priceToIndex (b₀.entry h).order.price = i) (s : Side) (p : Int) :
    (joined (b.view q) (b.compression.priceToIndex (b.slot h).price) (b.entry h)
        (b.compression.priceToIndex p)).filter (atPrice s p) ++
      ((update rest i l (b₀.compression.priceToIndex p)).map b₀.entry).filter (atPrice s p) =
    (b.view q (b.compression.priceToIndex p)).filter (atPrice s p) ++
      ((rest (b₀.compression.priceToIndex p)).map b₀.entry).filter (atPrice s p) := by
  rw [hm.entry h]
  by_cases hat : atPrice s p (b₀.entry h)
  · obtain ⟨-, rfl⟩ := of_decide_eq_true hat
    have hprice : (b.slot h).price = (b₀.entry h).order.price :=
      congrArg (fun e => e.order.price) (hm.entry h)
    rw [hindex, hprice, joined, update_self, update_self, hrest, filter_append,
      filter_cons_of_pos hat, map_cons, filter_cons_of_pos hat]
    simp
  · congr 1
    · unfold joined
      by_cases ht : b.compression.priceToIndex p = b.compression.priceToIndex (b.slot h).price
      · rw [ht, update_self, filter_append, filter_cons_of_neg hat]
        simp
      · rw [update_of_ne ht]
    · by_cases hidx : b₀.compression.priceToIndex p = i
      · rw [hidx, update_self, hrest, map_cons, filter_cons_of_neg hat]
      · rw [update_of_ne hidx]

theorem Migrating.orderly_moved (hst₀ : Standing b₀ q₀ free) (hacc : Accepts b₀ q₀ b.compression)
    (hrest : rest i = h :: l) :
    let t := b.compression.priceToIndex (b.slot h).price
    Orderly b₀ q₀ (b.moved h) (update q t (q t ++ [h])) (update rest i l) := by
  intro t
  have hmem : b₀.entry h ∈ b₀.view q₀ i := mem_map_of_mem (hm.mem_front hrest)
  have hprice : (b₀.entry h).order.price = (b.slot h).price :=
    (congrArg (fun e => e.order.price) (hm.entry h)).symm
  have hplace := hst₀.placed i _ hmem
  have ho := hm.orderly hst₀ hacc
  have hcomp : (b.moved h).compression = b.compression := (b.frame_moved h).1.compression
  have hview : (b.moved h).view (update q t (q t ++ [h])) = joined (b.view q) t (b.entry h) :=
    (view_congr (b.orders_moved h) _).trans (b.view_linked h q)
  refine ⟨?_, ?_, fun s p => ?_⟩
  · refine tracks_improveBest ho.tracks ?_ (b.view_linked h q) rfl rfl
    intro u e he
    have hlt := hacc.exact.priceToIndex_lt e.order.price
    rw [hm.indexed u e he] at hlt
    have := hacc.exact.total_lt
    unfold NONE
    omega
  · rw [hcomp, hview]
    intro u e he
    rcases mem_joined.1 he with he | ⟨rfl, rfl⟩
    · exact ho.placed u e he
    · have hreg := hacc.regular i _ hmem
      have haligned := hacc.aligned i _ hmem
      have hpos := hplace.pos
      have hfits := hplace.fits
      rw [hprice] at hreg haligned hpos hfits
      exact ⟨rfl, hreg, haligned, hpos, hfits⟩
  · rw [hcomp, hview, ← ho.queue s p]
    exact hm.queue_moved hrest hplace.index s p

theorem Migrating.step (hq₀ : Queued b₀ q₀ free)
    (hsum : total (b₀.entries q₀) ≤ i64Max) (hrest : rest i = h :: l)
    (hlt : b.compression.priceToIndex (b.slot h).price < b.compression.totalSlots) :
    let t := b.compression.priceToIndex (b.slot h).price
    Migrating b₀ q₀ free (b.moved h) (update q t (q t ++ [h])) (update rest i l) := by
  intro t
  have hqty : 0 ≤ (b.slot h).remainingQty := by
    have heq : (b.slot h).remainingQty = (b₀.slot h).remainingQty :=
      congrArg (fun e => e.order.remainingQty) (hm.entry h)
    rw [heq]
    exact (hq₀.pos i h (hm.mem_front hrest)).le
  have hcomp : (b.moved h).compression = b.compression := (b.frame_moved h).1.compression
  exact
    { repr := (hm.waiting hq₀ hrest).moved hlt hqty (hm.fits hq₀ hsum hrest)
      bump := by
        rw [orders_moved, linked, (slab_linkTail ..).2.1]
        exact hm.bump
      sub := fun j x hx => hm.sub j x (mem_of_mem_update hrest hx)
      path := hm.path_moved hq₀ hrest
      entry := fun x => (congrArg (Entry.mk x) (b.slot_moved h x).2).trans (hm.entry x)
      active := fun x => (b.slot_moved h x).1.trans (hm.active x)
      indexed := by
        rw [hcomp, view_congr (b.orders_moved h), view_linked]
        intro u e he
        rcases mem_joined.1 he with he | ⟨rfl, rfl⟩
        · exact hm.indexed u e he
        · rfl
      orderly := fun hst₀ hacc => hm.orderly_moved hst₀ (hcomp ▸ hacc) hrest }

end

def Bounded (b₀ : Orderbook) (q₀ : Nat → List Nat) (m : CompressionMap) : Prop :=
  ∀ t, ∀ e ∈ b₀.view q₀ t, m.priceToIndex e.order.price < m.totalSlots

theorem Accepts.bounded {m : CompressionMap} (hacc : Accepts b₀ q₀ m) : Bounded b₀ q₀ m :=
  fun _ _ _ => hacc.exact.priceToIndex_lt _

theorem migrateOrders_spec (hq₀ : Queued b₀ q₀ free) (hsum : total (b₀.entries q₀) ≤ i64Max)
    (hm : Migrating b₀ q₀ free b q rest) (hrest : rest i = l)
    (hfuel : l.length < fuel) :
    (∃ b' q', migrateOrders fuel b (l.headD NONE) = some b' ∧
      Migrating b₀ q₀ free b' q' (update rest i []) ∧ Frame b b' ∧
      b'.users = b.users ∧ b'.eventBuf = b.eventBuf) ∨
    (migrateOrders fuel b (l.headD NONE) = none ∧ ¬ Bounded b₀ q₀ b.compression) := by
  induction l generalizing b q rest fuel with
  | nil =>
    obtain ⟨fuel, rfl⟩ := Nat.exists_eq_succ_of_ne_zero (by omega : fuel ≠ 0)
    refine .inl ⟨b, q, if_pos rfl, ?_, Frame.refl b, rfl, rfl⟩
    rw [← hrest, update_eq_self]
    exact hm
  | cons h l ih =>
    obtain ⟨fuel, rfl⟩ := Nat.exists_eq_succ_of_ne_zero (by omega : fuel ≠ 0)
    rw [length_cons] at hfuel
    have hmem := hm.mem_front hrest
    have hrun : migrateOrders (fuel + 1) b h = _ :=
      migrateOrders_cons hm hrest (hq₀.repr.ne_none hmem)
    rw [headD_cons, hrun]
    by_cases hlt : b.compression.priceToIndex (b.slot h).price < b.compression.totalSlots
    · have hm₁ := hm.step hq₀ hsum hrest hlt
      obtain ⟨hframe₁, husers₁, hevents₁⟩ := b.frame_moved h
      rw [if_pos hlt]
      have hlen : l.length < fuel := by omega
      have hrest₁ := ih hm₁ (update_self ..) hlen
      rw [update_idem, hframe₁.compression] at hrest₁
      refine hrest₁.imp_left ?_
      rintro ⟨b', q', hrun', hm', hframe', husers', hevents'⟩
      exact ⟨b', q', hrun', hm', hframe₁.trans hframe', husers'.trans husers₁,
        hevents'.trans hevents₁⟩
    · refine .inr ⟨if_neg hlt, fun hbounded => hlt ?_⟩
      have hprice : (b.slot h).price = (b₀.entry h).order.price :=
        congrArg (fun e => e.order.price) (hm.entry h)
      rw [hprice]
      exact hbounded i _ (mem_map_of_mem hmem)

/-- The state of `complete_migration_eager`: the lists of `rest` wait in the old levels. -/
structure Underway (b₀ : Orderbook) (q₀ : Nat → List Nat) (free : List Nat) (m : CompressionMap)
    (b : Orderbook) (rest : Nat → List Nat) : Prop where
  migrating : ∃ q, Migrating b₀ q₀ free b q rest
  levels : ∃ levels, b.oldLevels = some levels ∧
    ∀ i, (levels i).orderCount = (rest i).length ∧ (levels i).head = (rest i).headD NONE
  oldCompression : b.oldCompression = some b₀.compression
  compression : b.compression = m
  asc : b.priceAsc = m.buildPriceAsc
  config : b.config = b₀.config
  state : b.state = .migrating
  capacity : b.orders.capacity = b₀.orders.capacity
  users : b.users = b₀.users
  events : b.eventBuf = b₀.eventBuf

variable {m : CompressionMap}

theorem Migrating.setOldLevels (hm : Migrating b₀ q₀ free b q rest)
    (levels : Option (Nat → PriceLevel)) :
    Migrating b₀ q₀ free { b with oldLevels := levels } q rest :=
  { repr := hm.repr.congr rfl rfl rfl rfl rfl rfl rfl rfl fun _ _ _ => ⟨rfl, rfl, rfl⟩
    bump := hm.bump
    sub := hm.sub
    path := hm.path
    entry := hm.entry
    active := hm.active
    indexed := hm.indexed
    orderly := fun hst₀ hacc =>
      let ho := hm.orderly hst₀ hacc
      ⟨ho.tracks, ho.placed, ho.queue⟩ }

theorem Underway.migrateSingleLevel (hu : Underway b₀ q₀ free m b rest)
    (hq₀ : Queued b₀ q₀ free) (hsum : total (b₀.entries q₀) ≤ i64Max) (i : Nat) :
    (∃ b', b.migrateSingleLevel i = some b' ∧ Underway b₀ q₀ free m b' (update rest i [])) ∨
    (b.migrateSingleLevel i = none ∧ ¬ Bounded b₀ q₀ m) := by
  obtain ⟨_, hm⟩ := hu.migrating
  obtain ⟨levels, holdLevels, hlevels⟩ := hu.levels
  unfold Orderbook.migrateSingleLevel
  simp only [holdLevels, hu.oldCompression]
  split_ifs with hskip
  · -- Nothing waits in this slot.
    have hnil : rest i = [] := by
      rcases hskip with hge | hzero
      · rw [eq_nil_iff_forall_not_mem]
        intro x hx
        have := hq₀.repr.lt_total (hm.sub i x hx)
        omega
      · rw [(hlevels i).1] at hzero
        exact length_eq_zero_iff.1 hzero
    refine .inl ⟨b, rfl, ?_⟩
    rw [← hnil, update_eq_self]
    exact hu
  · have hfuel : (rest i).length < b.orders.capacity + 1 := by
      have hnodup : (rest i).Nodup := by
        by_cases hi : i < b₀.compression.totalSlots
        · exact nodup_bucket hm.repr.nodup_loose hi
        · exact absurd (.inl (by omega)) hskip
      have hsub := hnodup.subperm (hm.sub i)
      have := hq₀.repr.length_le_capacity i
      have := hsub.length_le
      rw [hu.capacity]
      omega
    rw [(hlevels i).2]
    rcases migrateOrders_spec hq₀ hsum hm rfl hfuel with
      ⟨_, q', hrun, hm', hframe, husers, hevents⟩ | ⟨hrun, hout⟩
    swap
    · rw [hrun]
      exact .inr ⟨rfl, hu.compression ▸ hout⟩
    rw [hrun]
    refine .inl ⟨_, rfl, ?_⟩
    exact
      { migrating := ⟨q', hm'.setOldLevels _⟩
        levels := by
          refine ⟨_, rfl, fun j => ?_⟩
          by_cases hj : j = i
          · subst hj
            simp only [update_self]
            exact ⟨rfl, rfl⟩
          · simp only [update_of_ne hj]
            exact hlevels j
        oldCompression := hframe.oldCompression.trans hu.oldCompression
        compression := hframe.compression.trans hu.compression
        asc := hframe.priceAsc.trans hu.asc
        config := hframe.config.trans hu.config
        state := hframe.state.trans hu.state
        capacity := hframe.capacity.trans hu.capacity
        users := husers.trans hu.users
        events := hevents.trans hu.events }

theorem Underway.migrateFrom {k : Nat} (hu : Underway b₀ q₀ free m b rest)
    (hq₀ : Queued b₀ q₀ free) (hsum : total (b₀.entries q₀) ≤ i64Max) :
    (∃ b' rest', migrateFrom k i b = some b' ∧ Underway b₀ q₀ free m b' rest' ∧
      (∀ j, i ≤ j → j < i + k → rest' j = []) ∧ ∀ j, rest j = [] → rest' j = []) ∨
    (migrateFrom k i b = none ∧ ¬ Bounded b₀ q₀ m) := by
  induction k generalizing b rest i with
  | zero => exact .inl ⟨b, rest, rfl, hu, fun j _ _ => by omega, fun _ => id⟩
  | succ k ih =>
    rw [migrateFrom]
    rcases hu.migrateSingleLevel hq₀ hsum i with ⟨_, hrun₁, hu₁⟩ | ⟨hrun₁, hout⟩
    swap
    · rw [hrun₁]
      exact .inr ⟨rfl, hout⟩
    rw [hrun₁]
    refine (ih (i := i + 1) hu₁).imp_left ?_
    rintro ⟨b', rest', hrun', hu', hdone, hkeep⟩
    refine ⟨b', rest', hrun', hu', ?_, ?_⟩
    · intro j hi hj
      rcases hi.eq_or_lt with rfl | hlt
      · exact hkeep i (update_self ..)
      · exact hdone j hlt (by omega)
    · intro j hj
      refine hkeep j ?_
      by_cases hji : j = i
      · rw [hji, update_self]
      · rw [update_of_ne hji, hj]

theorem levelRepr_nil (hlevel : b.activeLevels = fun _ => {})
    (hocc : b.occ = fun _ => Occupancy.new b.compression.totalSlots) (t : Nat) :
    LevelRepr b t [] where
  path := trivial
  back := trivial
  head := by rw [hlevel]; rfl
  tail := by rw [hlevel]; rfl
  tick := fun h hh => absurd hh not_mem_nil
  orderCount := by rw [hlevel]; rfl
  count := fun s => by rw [hlevel]; rfl
  totalQty := by rw [hlevel]; rfl
  nonneg := fun h hh => absurd hh not_mem_nil
  fits := (by decide : (0 : Int) ≤ i64Max)
  occTest := fun s => by rw [hocc, hlevel, Occupancy.test_new]; rfl

theorem repr_nil (hlevel : b.activeLevels = fun _ => {})
    (hocc : b.occ = fun _ => Occupancy.new b.compression.totalSlots)
    (hpath : Path b.nextOf free NONE) (hhead : b.orders.freeHead = free.headD NONE)
    (hcover : (loose ++ free).Perm (List.range b.orders.bumpNext))
    (hbump : b.orders.bumpNext ≤ b.orders.capacity) (hcap : b.orders.capacity ≤ NONE) :
    Repr b (fun _ => []) loose free where
  level := levelRepr_nil hlevel hocc
  outside _ _ := rfl
  freePath := hpath
  freeHead := hhead
  cover := by rwa [contents_const_nil]
  bump_le := hbump
  cap_le := hcap
  occWf _ := hocc ▸ Occupancy.wf_new _
  occN _ := hocc ▸ Occupancy.n_new _

theorem underway_reset (hq₀ : Queued b₀ q₀ free) (newMid : Int) :
    Underway b₀ q₀ free (CompressionMap.new newMid b₀.config.tickSize) (b₀.reset newMid) q₀ := by
  have hb := hq₀.repr
  have hcover := hb.cover
  rw [append_nil] at hcover
  have hempty : ∀ s, SideEmpty ((b₀.reset newMid).view fun _ => []) s := fun s t e he =>
    absurd he not_mem_nil
  have hmigrating : Migrating b₀ q₀ free (b₀.reset newMid) (fun _ => []) q₀ :=
    { repr := repr_nil rfl rfl hb.freePath hb.freeHead hcover hb.bump_le hb.cap_le
      bump := rfl
      sub := fun _ _ => id
      path := fun i => (hb.level i).path
      entry := fun _ => rfl
      active := fun _ => rfl
      indexed := fun t e he => absurd he not_mem_nil
      orderly := fun _ _ =>
        { tracks := fun s => .inl ⟨rfl, rfl, hempty s⟩
          placed := fun t e he => absurd he not_mem_nil
          queue := fun s p => rfl } }
  exact
    { migrating := ⟨_, hmigrating⟩
      levels := ⟨_, rfl, fun i => ⟨(hb.level i).orderCount, (hb.level i).head⟩⟩
      oldCompression := rfl
      compression := rfl
      asc := rfl
      config := rfl
      state := rfl
      capacity := rfl
      users := rfl
      events := rfl }

/-- What recentering leaves: the same orders under the same handles, in the slots of the new map. -/
structure Recentered (b₀ : Orderbook) (q₀ : Nat → List Nat) (free : List Nat) (m : CompressionMap)
    (b : Orderbook) (q : Nat → List Nat) : Prop where
  queued : Queued b q free
  indexed : Indexed b.compression (b.view q)
  compression : b.compression = m
  asc : b.priceAsc = m.buildPriceAsc
  held : b.held = b₀.held
  config : b.config = b₀.config
  capacity : b.orders.capacity = b₀.orders.capacity
  users : b.users = b₀.users
  events : b.eventBuf = b₀.eventBuf
  orderly : Standing b₀ q₀ free → Accepts b₀ q₀ m → Orderly b₀ q₀ b q fun _ => []

/-- **Recentering keeps the book**, whatever the old and the new map; it fails only when the new map
lacks a slot for an order. -/
theorem Queued.recenterNow (hq₀ : Queued b₀ q₀ free) (hsum : total (b₀.entries q₀) ≤ i64Max)
    (newMid : Int) :
    let m := CompressionMap.new newMid b₀.config.tickSize
    (∃ b' q', b₀.recenterNow newMid = some b' ∧ Recentered b₀ q₀ free m b' q') ∨
      (b₀.recenterNow newMid = none ∧ ¬ Bounded b₀ q₀ m) := by
  intro m
  rcases (underway_reset hq₀ newMid).migrateSingleLevel hq₀ hsum
    (b₀.compression.priceToIndex newMid) with ⟨b₁, hrun₁, hu₁⟩ | ⟨hrun₁, hout⟩
  swap
  · have htrigger : b₀.triggerRecenter newMid = none := hrun₁
    refine .inr ⟨?_, hout⟩
    unfold Orderbook.recenterNow
    rw [htrigger]
    rfl
  have htrigger : b₀.triggerRecenter newMid = some b₁ := hrun₁
  have hcomplete : b₀.recenterNow newMid =
      (Orderbook.migrateFrom b₀.compression.totalSlots 0 b₁).bind fun b =>
        some { b with oldLevels := none, oldCompression := none, state := .normal } := by
    unfold Orderbook.recenterNow completeMigrationEager
    rw [htrigger, Option.bind_eq_bind, Option.bind_some, if_neg (by rw [hu₁.state]; decide),
      hu₁.oldCompression]
    rfl
  rcases hu₁.migrateFrom (k := b₀.compression.totalSlots) (i := 0) hq₀ hsum with
    ⟨b₂, rest, hrun₂, hu₂, hdone, hkeep⟩ | ⟨hrun₂, hout⟩
  swap
  · rw [hcomplete, hrun₂]
    exact .inr ⟨rfl, hout⟩
  have hrest : rest = fun _ => [] := by
    funext j
    by_cases hj : j < b₀.compression.totalSlots
    · exact hdone j (Nat.zero_le j) (by omega)
    · refine hkeep j ?_
      by_cases hidx : j = b₀.compression.priceToIndex newMid
      · rw [hidx, update_self]
      · rw [update_of_ne hidx, hq₀.repr.outside j (by omega)]
  obtain ⟨q', hm⟩ := hu₂.migrating
  rw [hrest] at hm
  let b' : Orderbook := { b₂ with oldLevels := none, oldCompression := none, state := .normal }
  have hrun : b₀.recenterNow newMid = some b' := by
    rw [hcomplete, hrun₂]
    rfl
  have hrepr : Repr b' q' [] free := by
    have := hm.repr
    rw [contents_const_nil] at this
    exact this.congr rfl rfl rfl rfl rfl rfl rfl rfl fun _ _ _ => ⟨rfl, rfl, rfl⟩
  have hperm := hm.perm hq₀
  rw [contents_const_nil, append_nil] at hperm
  -- The same handles are in queues.
  have hmem : ∀ h, (∃ t, h ∈ q' t) ↔ ∃ t, h ∈ q₀ t := by
    intro h
    have hiff := hperm.mem_iff (a := h)
    rw [mem_contents, mem_contents] at hiff
    constructor
    · rintro ⟨t, ht⟩
      obtain ⟨u, -, hu⟩ := hiff.1 ⟨t, hrepr.lt_total ht, ht⟩
      exact ⟨u, hu⟩
    · rintro ⟨t, ht⟩
      obtain ⟨u, -, hu⟩ := hiff.2 ⟨t, hq₀.repr.lt_total ht, ht⟩
      exact ⟨u, hu⟩
  have hq' : Queued b' q' free := by
    refine ⟨hrepr, fun h => ?_, fun t h hh => ?_⟩
    · exact ((Bool.eq_iff_iff.1 (hm.active h)).trans (hq₀.active h)).trans (hmem h).symm
    · obtain ⟨u, hu⟩ := (hmem h).1 ⟨t, hh⟩
      have heq : (b'.slot h).remainingQty = (b₀.slot h).remainingQty :=
        congrArg (fun e => e.order.remainingQty) (hm.entry h)
      rw [heq]
      exact hq₀.pos u h hu
  have hheld : b'.held = b₀.held := by
    funext h
    have hactive : (b'.slot h).active = (b₀.slot h).active := hm.active h
    have hresting : (b'.slot h).resting = (b₀.slot h).resting :=
      congrArg (fun e => e.order) (hm.entry h)
    unfold Orderbook.held
    rw [hactive, hresting]
  exact .inl ⟨b', q', hrun,
    { queued := hq'
      indexed := hm.indexed
      compression := hu₂.compression
      asc := hu₂.asc
      held := hheld
      config := hu₂.config
      capacity := hu₂.capacity
      users := hu₂.users
      events := hu₂.events
      orderly := fun hst₀ hacc =>
        let ho := hm.orderly hst₀ (hu₂.compression.symm ▸ hacc)
        ⟨ho.tracks, ho.placed, ho.queue⟩ }⟩

theorem recenterNow_spec (hst₀ : Standing b₀ q₀ free) (hsum : total (b₀.entries q₀) ≤ i64Max)
    {newMid : Int} (hacc : Accepts b₀ q₀ (CompressionMap.new newMid b₀.config.tickSize)) :
    ∃ b' q', b₀.recenterNow newMid = some b' ∧ Standing b' q' free ∧
      b'.compression = CompressionMap.new newMid b₀.config.tickSize ∧
      (∀ s p, (b'.entries q').filter (atPrice s p) = (b₀.entries q₀).filter (atPrice s p)) ∧
      b'.config = b₀.config ∧ b'.orders.capacity = b₀.orders.capacity ∧
      b'.users = b₀.users ∧ b'.eventBuf = b₀.eventBuf := by
  obtain ⟨b', q', hrun, hr⟩ := (hst₀.queued.recenterNow hsum newMid).resolve_right
    fun hout => hout.2 hacc.bounded
  have ho := hr.orderly hst₀ hacc
  have hst' : Standing b' q' free :=
    ⟨hr.queued, hr.compression.symm ▸ hacc.exact, hr.asc.trans (hr.compression ▸ rfl), ho.placed,
      ho.tracks⟩
  refine ⟨b', q', hrun, hst', hr.compression, fun s p => ?_, hr.config, hr.capacity, hr.users,
    hr.events⟩
  have hqueue := ho.queue s p
  rw [map_nil, filter_nil, append_nil] at hqueue
  rw [hst'.filter_entries, hst₀.filter_entries]
  exact hqueue

end Rsx.Book.Orderbook
