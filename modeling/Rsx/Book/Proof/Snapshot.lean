import Rsx.Book.Snapshot
import Rsx.Book.Representation

/-!
# A snapshot and the book restored from it

A snapshot can be taken of every book that represents its queues, and the book restored from it
holds the same orders under the same handles, in the same order at every price, and the same users.
-/

namespace Rsx.Book

open Function PriceTime HasQty Buckets LinkedList List CompressionMap Orderbook OrderSlot

variable {l : List Nat} {bump : Nat}

theorem or_mem_cons (f : Nat → Bool) (i : Nat) (l : List Nat) (x : Nat) :
    (update f i true x || decide (x ∈ l)) = (f x || decide (x ∈ i :: l)) := by
  by_cases hx : x = i
  · subst hx
    simp
  · simp [hx]

theorem restoreFree_eq {error : SnapshotError} {used : Nat → Bool} {indices : List Nat}
    (hnodup : indices.Nodup) {free : Nat → Bool}
    (hfresh : ∀ i ∈ indices, i < bump ∧ used i = false ∧ free i = false) :
    restoreFree error bump used indices free = .ok fun i => free i || decide (i ∈ indices) := by
  induction indices generalizing free with
  | nil => simp [restoreFree]
  | cons i indices ih =>
    obtain ⟨hnotMem, hnodup'⟩ := nodup_cons.1 hnodup
    obtain ⟨_, hused, hnew⟩ := hfresh i mem_cons_self
    rw [restoreFree, if_neg (by rw [hused, hnew]; simp; omega), ih hnodup' fun x hx => ?_]
    · exact congrArg Except.ok (funext (or_mem_cons free i indices))
    · obtain ⟨hlt', hused', _⟩ := hfresh x (mem_cons_of_mem _ hx)
      refine ⟨hlt', hused', ?_⟩
      rwa [update_of_ne fun heq : x = i => hnotMem (heq ▸ hx)]

/-- The free list of a snapshot, when each number below the bump is either in use or free. -/
theorem restoreFree_cover (error : SnapshotError) {used free : List Nat} (hnodup : free.Nodup)
    (hfree : ∀ i ∈ free, i < bump ∧ i ∉ used) (hcover : ∀ i < bump, i ∈ used ∨ i ∈ free) :
    restoreFree error bump (fun i => false || decide (i ∈ used)) free (fun _ => false) =
        .ok (fun i => false || decide (i ∈ free)) ∧
      ((range bump).any fun i =>
        !(false || decide (i ∈ used)) && !(false || decide (i ∈ free))) = false := by
  refine ⟨restoreFree_eq hnodup fun i hi => ⟨(hfree i hi).1, ?_, rfl⟩,
    any_eq_false.2 fun i hi => ?_⟩
  · rw [Bool.false_or, decide_eq_false (hfree i hi).2]
  · rcases hcover i (mem_range.1 hi) with hmem | hmem <;> simp [hmem]

namespace Orderbook

variable {b b' : Orderbook} {q : Nat → List Nat} {free loose : List Nat}
  {tick : Nat} {v : Visit} {ticks : List Nat} {snap : Nat → OrderSnapshot}

/-! ## Capture -/

structure Visited (b : Orderbook) (v : Visit) (l : List Nat) (v' : Visit) : Prop where
  orders : v'.orders = v.orders ++ l.map fun h => (b.slot h).snapshot h
  visited : ∀ h, v'.visited h = (v.visited h || decide (h ∈ l))

theorem Visited.trans {v₁ v₂ v₃ : Visit} {l₁ l₂ : List Nat} (h₁ : Visited b v₁ l₁ v₂)
    (h₂ : Visited b v₂ l₂ v₃) : Visited b v₁ (l₁ ++ l₂) v₃ where
  orders := by rw [h₂.orders, h₁.orders, map_append, append_assoc]
  visited h := by
    rw [h₂.visited, h₁.visited, Bool.or_assoc]
    simp [Bool.decide_or]

theorem captureQueue_eq {fuel : Nat} (count tail : Nat) (v : Visit)
    (hpath : Path b.nextOf l NONE) (hnodup : l.Nodup) (hfuel : l.length < fuel)
    (hslot : ∀ h ∈ l, h < b.orders.bumpNext ∧ h ≠ NONE ∧ v.visited h = false ∧
      (b.slot h).active = true ∧ (b.slot h).tickIndex = tick) :
    ∃ v', b.captureQueue tick fuel (l.headD NONE) v count tail =
        .ok (v', count + l.length, l.getLastD tail) ∧ Visited b v l v' := by
  induction l generalizing fuel count tail v with
  | nil =>
    obtain ⟨fuel, rfl⟩ := Nat.exists_eq_succ_of_ne_zero hfuel.ne'
    exact ⟨v, if_pos rfl, by simp, by simp⟩
  | cons h l ih =>
    obtain ⟨fuel, rfl⟩ := Nat.exists_eq_succ_of_ne_zero (Nat.zero_lt_of_lt hfuel).ne'
    obtain ⟨hlt, hne, hfresh, hactive, htick⟩ := hslot h mem_cons_self
    obtain ⟨hnotMem, hnodup'⟩ := nodup_cons.1 hnodup
    have hgo : b.captureQueue tick (fuel + 1) h v count tail =
        b.captureQueue tick fuel (b.slot h).next (v.add h (b.slot h)) (count + 1) h := by
      rw [captureQueue, if_neg hne, if_neg (by rw [hfresh]; simp; omega)]
      refine if_neg ?_
      rintro (hinactive | hother)
      · exact hinactive hactive
      · exact hother htick
    have hnext : (b.slot h).next = l.headD NONE := hpath.1
    obtain ⟨v', hrun, hvisited⟩ := ih (count + 1) h (v.add h (b.slot h)) hpath.2
      hnodup' (Nat.lt_of_succ_lt_succ hfuel) fun x hx => by
        obtain ⟨hlt, hne, _, hrest⟩ := hslot x (mem_cons_of_mem _ hx)
        refine ⟨hlt, hne, ?_, hrest⟩
        show update v.visited h true x = false
        rwa [update_of_ne fun heq : x = h => hnotMem (heq ▸ hx)]
    have hone : Visited b v [h] (v.add h (b.slot h)) := by
      refine ⟨rfl, fun x => ?_⟩
      show update v.visited h true x = _
      by_cases hx : x = h
      · subst hx
        simp
      · simp [hx]
    refine ⟨v', ?_, hone.trans hvisited⟩
    show b.captureQueue tick (fuel + 1) h v count tail = _
    rw [hgo, hnext, hrun, length_cons, getLastD_cons, Nat.add_assoc, Nat.add_comm 1]

theorem captureLevel_eq (hq : Queued b q free) (hfresh : ∀ h ∈ q tick, v.visited h = false) :
    ∃ v', b.captureLevel v tick = .ok v' ∧ Visited b v (q tick) v' := by
  have hl := hq.repr.level tick
  have hlength : (q tick).length ≤ b.orders.bumpNext :=
    length_le_of_lt (hq.repr.nodup_queue tick) fun _ => hq.repr.lt_bump
  obtain ⟨v', hrun, hvisited⟩ := captureQueue_eq 0 NONE v hl.path
    (hq.repr.nodup_queue tick) (Nat.lt_succ_of_le hlength) fun h hh =>
      ⟨hq.repr.lt_bump hh, hq.repr.ne_none hh, hfresh h hh, (hq.active h).2 ⟨tick, hh⟩,
        hl.tick h hh⟩
  refine ⟨v', ?_, hvisited⟩
  unfold captureLevel
  simp only [hl.head, hrun, hl.orderCount, hl.tail]
  exact if_neg (by simp)

theorem captureLevels_eq (hq : Queued b q free)
    (hnodup : (ticks.flatMap q).Nodup) (hfresh : ∀ h ∈ ticks.flatMap q, v.visited h = false) :
    ∃ v', b.captureLevels ticks v = .ok v' ∧ Visited b v (ticks.flatMap q) v' := by
  induction ticks generalizing v with
  | nil => exact ⟨v, rfl, by simp, by simp⟩
  | cons tick ticks ih =>
    obtain ⟨-, hnodup', hdisjoint⟩ := nodup_append.1 hnodup
    obtain ⟨v₁, hrun₁, hvisited₁⟩ := captureLevel_eq hq fun h hh =>
      hfresh h (mem_append_left _ hh)
    obtain ⟨v', hrun, hvisited⟩ := ih (v := v₁) hnodup' fun h hh => by
      rw [hvisited₁.visited, hfresh h (mem_append_right _ hh)]
      simp only [Bool.false_or, decide_eq_false_iff_not]
      exact fun hmem => hdisjoint h hmem h hh rfl
    refine ⟨v', ?_, hvisited₁.trans hvisited⟩
    simp only [captureLevels, hrun₁, hrun]

/-- What a snapshot of a book with the queues `q` and the free handles `free` holds. -/
def snapshot (b : Orderbook) (q : Nat → List Nat) (free : List Nat) : BookSnapshot where
  sequence := b.sequence
  config := b.config
  compressionMidPrice := b.compression.midPrice
  slabCapacity := b.orders.capacity
  slabBump := b.orders.bumpNext
  orders := (contents b.compression.totalSlots q).map fun h => (b.slot h).snapshot h
  freeHandles := free
  users := b.users.capture

def handles (b : Orderbook) (q : Nat → List Nat) : List Nat :=
  contents b.compression.totalSlots q

theorem Queued.mem_handles (hq : Queued b q free) {h : Nat} :
    h ∈ b.handles q ↔ (b.slot h).active = true := by
  rw [hq.active, handles, mem_contents]
  exact ⟨fun ⟨t, _, ht⟩ => ⟨t, ht⟩, fun ⟨t, ht⟩ => ⟨t, hq.repr.lt_total ht, ht⟩⟩

theorem Queued.handles_cover (hq : Queued b q free) :
    (b.handles q ++ free).Perm (range b.orders.bumpNext) := by
  have hcover := hq.repr.cover
  rw [append_nil] at hcover
  exact hcover

theorem Queued.capture (hq : Queued b q free) (hstate : b.state = .normal) :
    b.capture = .ok (b.snapshot q free) := by
  have hcover := hq.handles_cover.nodup_iff.2 nodup_range
  obtain ⟨v, hrun, hvisited⟩ := captureLevels_eq (v := {}) hq (nodup_append.1 hcover).1
    fun _ _ => rfl
  have hslab : ((List.range b.orders.bumpNext).any fun h =>
      decide ((b.orders.get h).active ≠ v.visited h)) = false := by
    rw [any_eq_false]
    intro h _
    have hsame : (b.orders.get h).active = v.visited h := by
      rw [hvisited.visited, Bool.false_or, Bool.eq_iff_iff, decide_eq_true_iff]
      exact hq.mem_handles.symm
    simp [hsame]
  have hfree : b.freeHandles = free := by
    unfold freeHandles Slab.walk
    rw [hq.repr.freeHead]
    have hnone : ∀ h ∈ free, h < b.orders.bumpNext := fun h hh =>
      mem_range.1 (hq.repr.cover.mem_iff.1 (mem_append_right _ hh))
    refine follow_eq hq.repr.freePath (fun hmem => ?_) ?_
    · have := hnone NONE hmem
      have := hq.repr.bump_le
      have := hq.repr.cap_le
      omega
    · exact (length_le_of_lt (nodup_append.1 hcover).2.1 hnone).trans hq.repr.bump_le
  unfold Orderbook.capture
  rw [if_neg (by rw [hstate]; decide), hrun]
  dsimp only
  rw [if_neg (by rw [hslab]; decide), hfree]
  have horders : v.orders = (contents b.compression.totalSlots q).map
      fun h => (b.slot h).snapshot h := hvisited.orders
  rw [horders]
  rfl

/-! ## The slots and the free list -/

theorem restoreSlots_eq (hsnap : ∀ h, (snap h).handle = h)
    {hs : List Nat} (hnodup : hs.Nodup) (slab : Slab OrderSlot) {active : Nat → Bool}
    (hfresh : ∀ h ∈ hs, h < bump ∧ active h = false) :
    restoreSlots bump (hs.map snap) slab active =
      .ok ({ slab with slots := fun h => if h ∈ hs then (snap h).slot else slab.slots h },
        fun h => active h || decide (h ∈ hs)) := by
  induction hs generalizing slab active with
  | nil => simp [restoreSlots]
  | cons h hs ih =>
    obtain ⟨hnotMem, hnodup'⟩ := nodup_cons.1 hnodup
    obtain ⟨_, hnew⟩ := hfresh h mem_cons_self
    rw [map_cons, restoreSlots, hsnap, if_neg (by rw [hnew]; simp; omega),
      ih hnodup' _ fun x hx => ?_]
    · congr 2
      · congr 1
        funext x
        by_cases hx : x = h
        · subst hx
          simp [hnotMem, Slab.modify]
        · simp [hx, Slab.modify]
      · exact funext (or_mem_cons active h hs)
    · obtain ⟨hlt', _⟩ := hfresh x (mem_cons_of_mem _ hx)
      refine ⟨hlt', ?_⟩
      rwa [update_of_ne fun heq : x = h => hnotMem (heq ▸ hx)]

theorem Repr.restoreFreeHandles {handles : List Nat} (hb : Repr b q (loose ++ handles) [])
    (hhead : b.orders.freeHead = NONE) :
    Repr { b with orders := b.orders.restoreFreeHandles handles } q loose handles := by
  have hstart : ({ b.orders with freeHead := NONE } : Slab OrderSlot) = b.orders := by
    rw [← hhead]
  unfold Slab.restoreFreeHandles
  rw [hstart]
  induction handles generalizing loose with
  | nil =>
    rw [append_nil] at hb
    exact hb
  | cons h handles ih =>
    have hmoved : Repr b q (loose ++ [h] ++ handles) [] := by
      rw [append_assoc]
      exact hb
    have hperm : (loose ++ [h]).Perm (h :: loose) := perm_append_comm
    exact ((ih hmoved).perm_loose hperm).release

theorem slots_restoreFreeHandles (s : Slab OrderSlot) (handles : List Nat) (h : Nat) :
    (h ∉ handles → (s.restoreFreeHandles handles).slots h = s.slots h) ∧
      ((s.restoreFreeHandles handles).slots h).active = (s.slots h).active ∧
      (s.restoreFreeHandles handles).capacity = s.capacity := by
  unfold Slab.restoreFreeHandles
  induction handles with
  | nil => exact ⟨fun _ => rfl, rfl, rfl⟩
  | cons x handles ih =>
    obtain ⟨hslots, hactive, hcap⟩ := ih
    refine ⟨fun hnot => ?_, ?_, hcap⟩
    · have hne : h ≠ x := fun heq => hnot (heq ▸ mem_cons_self)
      exact (update_of_ne hne ..).trans (hslots fun hmem =>
        hnot (mem_cons_of_mem _ hmem))
    · rw [foldr_cons]
      refine Eq.trans ?_ hactive
      by_cases hx : h = x
      · subst hx
        unfold Slab.free Slab.modify
        dsimp only
        rw [update_self]
        rfl
      · exact congrArg active (update_of_ne hx ..)

/-! ## The queues -/

def bare (slot : OrderSlot) : OrderSlot :=
  { slot with next := NONE, prev := NONE, tickIndex := 0 }

/-- The book with the counts and the bitmaps that its queues call for. -/
def counted (b : Orderbook) (q : Nat → List Nat) (occ : Side → Occupancy) : Orderbook :=
  { b with
    activeLevels := fun t => { b.activeLevels t with
      count := fun s => (q t).countP fun h => (b.slot h).side = s }
    occ := occ }

/-- The links represent the queues `q`; the counts and the bitmaps are still to be rebuilt. -/
structure Relinking (b : Orderbook) (q : Nat → List Nat) (loose free : List Nat) : Prop where
  repr : ∃ occ, Repr (b.counted q occ) q loose free
  count : ∀ t, (b.activeLevels t).count = fun _ => 0
  unlinked : ∀ h ∈ loose, (b.slot h).next = NONE ∧ (b.slot h).prev = NONE

variable {h t : Nat}

theorem slot_relink (b : Orderbook) (t h : Nat) (qty : Int) (x : Nat) : (b.relink t h qty).slot x =
      if x = h then
        if (b.activeLevels t).orderCount = 0 then { b.slot h with tickIndex := t }
        else if h = (b.activeLevels t).tail then
          { b.slot h with tickIndex := t, next := h, prev := (b.activeLevels t).tail }
        else { b.slot h with tickIndex := t, prev := (b.activeLevels t).tail }
      else if (b.activeLevels t).orderCount ≠ 0 ∧ x = (b.activeLevels t).tail then
        { b.slot x with next := h }
      else b.slot x := by
  unfold relink slot
  dsimp only [Slab.modify]
  by_cases hcount : (b.activeLevels t).orderCount = 0
  · by_cases hx : x = h
    · subst hx
      simp [hcount]
    · simp [hcount, hx]
  · by_cases hx : x = h
    · subst hx
      by_cases htail : x = (b.activeLevels t).tail
      · simp [hcount, ← htail]
      · simp [hcount, htail]
    · by_cases htail : x = (b.activeLevels t).tail
      · subst htail
        simp [hcount, hx]
      · simp [hcount, hx, htail]

theorem bare_relink (b : Orderbook) (t h : Nat) (qty : Int) (x : Nat) :
    bare ((b.relink t h qty).slot x) = bare (b.slot x) := by
  rw [slot_relink]
  split_ifs with hx <;> first | rfl | (subst hx; rfl)

theorem fields_of_bare {s s' : OrderSlot} (h : bare s' = bare s) :
    s'.side = s.side ∧ s'.remainingQty = s.remainingQty ∧ s'.active = s.active ∧
      s'.price = s.price ∧ s'.resting = s.resting :=
  ⟨(congrArg OrderSlot.side h :), (congrArg OrderSlot.remainingQty h :),
    (congrArg OrderSlot.active h :), (congrArg OrderSlot.price h :),
    (congrArg OrderSlot.resting h :)⟩

theorem slab_relink (b : Orderbook) (t h : Nat) (qty : Int) :
    (b.relink t h qty).orders.freeHead = b.orders.freeHead ∧
      (b.relink t h qty).orders.bumpNext = b.orders.bumpNext ∧
      (b.relink t h qty).orders.capacity = b.orders.capacity := by
  unfold relink
  dsimp only
  split_ifs <;> exact ⟨rfl, rfl, rfl⟩

theorem slab_ext {s s' : Slab OrderSlot} (hslots : s.slots = s'.slots)
    (hhead : s.freeHead = s'.freeHead) (hbump : s.bumpNext = s'.bumpNext)
    (hcap : s.capacity = s'.capacity) : s = s' := by
  cases s
  simp_all

theorem data_of_unlinked {slot : OrderSlot} (hnext : slot.next = NONE) (hprev : slot.prev = NONE) :
    slot.data = slot := by
  cases slot
  simp_all [data]

theorem orders_relink (b : Orderbook) (q : Nat → List Nat) (occ : Side → Occupancy) {qty : Int}
    {side : Side} (hnext : (b.slot h).next = NONE) (hprev : (b.slot h).prev = NONE)
    (htail : (b.activeLevels t).orderCount ≠ 0 → h ≠ (b.activeLevels t).tail) :
    (((b.counted q occ).modifySlot h fun s => { s with tickIndex := t }).linkTail t h side
      qty).orders = (b.relink t h qty).orders := by
  set g := (b.counted q occ).modifySlot h fun s => { s with tickIndex := t } with hg
  obtain ⟨hhead, hbump, hcap⟩ := slab_linkTail g t h side qty
  obtain ⟨hhead', hbump', hcap'⟩ := slab_relink b t h qty
  refine slab_ext (funext fun x => ?_) (hhead.trans hhead'.symm) (hbump.trans hbump'.symm)
    (hcap.trans hcap'.symm)
  have hslot : ∀ x, g.slot x = if x = h then { b.slot h with tickIndex := t } else b.slot x :=
    slot_modifySlot (b.counted q occ) h fun s => { s with tickIndex := t }
  have hloose : (b.slot h).data = b.slot h := data_of_unlinked hnext hprev
  show (g.linkTail t h side qty).slot x = (b.relink t h qty).slot x
  rw [slot_linkTail, slot_relink]
  have hlevel : (g.activeLevels t).orderCount = (b.activeLevels t).orderCount := rfl
  have hlast : (g.activeLevels t).tail = (b.activeLevels t).tail := rfl
  rw [hlevel, hlast, hslot h]
  by_cases hcount : (b.activeLevels t).orderCount = 0
  · simp only [hcount, if_true, ne_eq, not_true_eq_false, false_and, if_false]
    by_cases hx : x = h
    · rw [if_pos hx, if_pos hx]
      exact congrArg (fun s : OrderSlot => { s with tickIndex := t }) hloose
    · rw [hslot, if_neg hx]
  · simp only [hcount, if_false, ne_eq, not_false_eq_true, true_and, if_neg (htail hcount)]
    by_cases hx : x = h
    · rw [if_pos hx, if_pos hx]
      exact congrArg
        (fun s : OrderSlot => { s with tickIndex := t, prev := (b.activeLevels t).tail }) hloose
    · rw [if_neg hx, if_neg hx, hslot, if_neg hx]

theorem countP_side_congr {b b' : Orderbook} (hside : ∀ x, (b'.slot x).side = (b.slot x).side)
    (l : List Nat) (s : Side) :
    (l.countP fun h => (b'.slot h).side = s) = l.countP fun h => (b.slot h).side = s :=
  countP_congr fun x _ => by rw [hside]

theorem LevelRepr.tail_mem (hl : LevelRepr b t l)
    (hne : (b.activeLevels t).orderCount ≠ 0) : (b.activeLevels t).tail ∈ l := by
  have hpos : l ≠ [] := fun hnil => hne (by rw [hl.orderCount, hnil]; rfl)
  rw [hl.tail, getLastD_eq_getLast?, getLast?_eq_some_getLast hpos]
  exact getLast_mem hpos

theorem Relinking.relink (hr : Relinking b q (h :: loose) free)
    (ht : t < b.compression.totalSlots) (hnonneg : 0 ≤ (b.slot h).remainingQty)
    (hfits : b.queueQty (q t) + (b.slot h).remainingQty ≤ i64Max) :
    Relinking (b.relink t h (b.slot h).remainingQty) (update q t (q t ++ [h])) loose
      free := by
  obtain ⟨occ, hrepr⟩ := hr.repr
  obtain ⟨hnext, hprev⟩ := hr.unlinked h mem_cons_self
  set qty := (b.slot h).remainingQty with hqty
  set g := (b.counted q occ).modifySlot h fun s => { s with tickIndex := t } with hg
  have hgslot : g.slot h = { b.slot h with tickIndex := t } := by
    rw [slot_modifySlot, if_pos rfl]
    rfl
  have hloose := hrepr.modifySlot_loose fun s => { s with tickIndex := t }
  have hnotMem : h ∉ q t := hrepr.loose_notMem mem_cons_self t
  have hlevel := hrepr.level t
  have htotal : (b.activeLevels t).totalQty = b.queueQty (q t) := hlevel.totalQty
  have hqueue : 0 ≤ b.queueQty (q t) := hlevel.queueQty_nonneg
  have hgqueue : g.queueQty (q t) = b.queueQty (q t) := by
    refine congrArg sum (map_congr_left fun x hx => ?_)
    rw [slot_modifySlot, if_neg fun heq : x = h => hnotMem (heq ▸ hx)]
    rfl
  have hlinked : Repr (g.linkTail t h (b.slot h).side qty) (update q t (q t ++ [h])) loose
      free :=
    hloose.linkTail ht (by rw [hgslot]) (by rw [hgslot]) (by rw [hgslot]) hnonneg
      (by rw [hgqueue]; exact hfits)
  have horders : (g.linkTail t h (b.slot h).side qty).orders = (b.relink t h qty).orders := by
    refine orders_relink b q occ hnext hprev fun hne heq => hnotMem ?_
    rw [heq]
    exact hlevel.tail_mem hne
  have hside : ∀ x, ((b.relink t h qty).slot x).side = (b.slot x).side := fun x =>
    (fields_of_bare (bare_relink b t h qty x)).1
  have hlevels : (g.linkTail t h (b.slot h).side qty).activeLevels =
      ((b.relink t h qty).counted (update q t (q t ++ [h])) occ).activeLevels := by
    funext u
    have hcounts := countP_side_congr hside
    by_cases hu : u = t
    · subst hu
      have hsum : wrap64 ((b.activeLevels u).totalQty + qty) =
          sat64 ((b.activeLevels u).totalQty + qty) := by
        rw [htotal, wrap64_of_nonneg (by omega) hfits, sat64_of_nonneg (by omega) hfits]
      show update g.activeLevels u _ u =
        { update b.activeLevels u _ u with
          count := fun s => (update q u (q u ++ [h]) u).countP fun x =>
            ((b.relink u h qty).slot x).side = s }
      simp only [update_self, hcounts]
      congr 1
      funext s
      by_cases hs : s = (b.slot h).side
      · subst hs
        simp [hg, counted, modifySlot]
      · rw [update_of_ne hs]
        simp [hg, counted, modifySlot, Ne.symm hs]
    · show update g.activeLevels t _ u =
        { update b.activeLevels t _ u with
          count := fun s => (update q t (q t ++ [h]) u).countP fun x =>
            ((b.relink t h qty).slot x).side = s }
      simp only [update_of_ne hu, hcounts]
      rfl
  refine ⟨⟨(g.linkTail t h (b.slot h).side qty).occ, ?_⟩, fun u => ?_, fun x hx => ?_⟩
  · have heq : g.linkTail t h (b.slot h).side qty =
        (b.relink t h qty).counted (update q t (q t ++ [h]))
          (g.linkTail t h (b.slot h).side qty).occ :=
      congrArg₂ (fun orders levels => { b with
        orders := orders
        activeLevels := levels
        occ := (g.linkTail t h (b.slot h).side qty).occ }) horders hlevels
    rw [← heq]
    exact hlinked
  · show (update b.activeLevels t _ u).count = _
    by_cases hu : u = t
    · subst hu
      rw [update_self]
      exact hr.count u
    · rw [update_of_ne hu]
      exact hr.count u
  · have hxh : x ≠ h := fun heq => (nodup_cons.1 hrepr.nodup_loose).1 (heq ▸ hx)
    have hxtail : ¬ ((b.activeLevels t).orderCount ≠ 0 ∧ x = (b.activeLevels t).tail) := by
      rintro ⟨hne, rfl⟩
      exact hrepr.loose_notMem (mem_cons_of_mem _ hx) t (hlevel.tail_mem hne)
    rw [slot_relink, if_neg hxh, if_neg hxtail]
    exact hr.unlinked x (mem_cons_of_mem _ hx)

theorem queueQty_congr {b b' : Orderbook}
    (hqty : ∀ x, (b'.slot x).remainingQty = (b.slot x).remainingQty) (l : List Nat) :
    b'.queueQty l = b.queueQty l :=
  congrArg sum (map_congr_left fun x _ => hqty x)

structure Rewired (b b' : Orderbook) : Prop where
  frame : Frame b b'
  users : b'.users = b.users
  bare : ∀ x, bare (b'.slot x) = bare (b.slot x)

theorem rewired_relink (b : Orderbook) (t h : Nat) (qty : Int) : Rewired b (b.relink t h qty) where
  frame := ⟨rfl, rfl, rfl, rfl, rfl, rfl, (slab_relink b t h qty).2.2⟩
  users := rfl
  bare := bare_relink b t h qty

theorem Rewired.trans {b₁ b₂ b₃ : Orderbook} (h : Rewired b₁ b₂) (h' : Rewired b₂ b₃) :
    Rewired b₁ b₃ where
  frame := h.frame.trans h'.frame
  users := h'.users.trans h.users
  bare x := (h'.bare x).trans (h.bare x)

theorem relinkOrders_eq (hsnap : ∀ h, (snap h).handle = h)
    {rest : List Nat} (hr : Relinking b q rest free)
    (hslot : ∀ h ∈ rest, (b.slot h).remainingQty = (snap h).remainingQty ∧
      0 ≤ (b.slot h).remainingQty)
    (hbound : ∀ h ∈ rest, b.compression.priceToIndex (snap h).price < b.compression.totalSlots)
    (hfits : ∀ t, b.queueQty (q t) + b.queueQty rest ≤ i64Max) :
    ∃ b', relinkOrders (rest.map snap) b = .ok b' ∧ Rewired b b' ∧
      Relinking b' (fun t => q t ++ rest.filter fun h =>
        b.compression.priceToIndex (snap h).price = t) [] free := by
  induction rest generalizing b q with
  | nil =>
    refine ⟨b, rfl, ⟨Frame.refl b, rfl, fun _ => rfl⟩, ?_⟩
    simpa using hr
  | cons h rest ih =>
    obtain ⟨hqty, hnonneg⟩ := hslot h mem_cons_self
    have ht := hbound h mem_cons_self
    set t := b.compression.priceToIndex (snap h).price with htdef
    have hsplit : b.queueQty (h :: rest) = (b.slot h).remainingQty + b.queueQty rest := by
      simp [queueQty]
    have hrest : 0 ≤ b.queueQty rest := by
      refine sum_nonneg fun x hx => ?_
      obtain ⟨y, hy, rfl⟩ := mem_map.1 hx
      exact (hslot y (mem_cons_of_mem _ hy)).2
    have hone := hr.relink ht hnonneg (by have := hfits t; omega)
    have hw := rewired_relink b t h (b.slot h).remainingQty
    set b₁ := b.relink t h (b.slot h).remainingQty with hb₁
    have hqtys : ∀ x, (b₁.slot x).remainingQty = (b.slot x).remainingQty := fun x =>
      (fields_of_bare (hw.bare x)).2.1
    obtain ⟨b', hrun, hw', hr'⟩ := ih hone
      (fun x hx => by
        rw [hqtys]
        exact hslot x (mem_cons_of_mem _ hx))
      (fun x hx => hbound x (mem_cons_of_mem _ hx))
      (fun u => by
        rw [queueQty_congr hqtys, queueQty_congr hqtys]
        have hu := hfits u
        by_cases hut : u = t
        · subst hut
          rw [update_self, queueQty_append, queueQty_singleton]
          omega
        · rw [update_of_ne hut]
          omega)
    refine ⟨b', ?_, hw.trans hw', ?_⟩
    · rw [map_cons, relinkOrders, if_pos ht, hsnap, ← hqty]
      exact hrun
    · convert hr' using 2 with u
      by_cases hut : u = t
      · subst hut
        rw [update_self, filter_cons_of_pos (by simp [htdef]), append_assoc]
        rfl
      · rw [update_of_ne hut, filter_cons_of_neg (by simpa using Ne.symm hut)]
        rfl

theorem foldl_set {n : Nat} {c : Nat → Prop} [DecidablePred c] {o : Occupancy}
    (hwf : o.Wf) (hn : o.n = n) (hticks : ∀ t ∈ ticks, t < n) :
    let o' := ticks.foldl (fun occ t => if c t then occ.set t else occ) o
    o'.Wf ∧ o'.n = n ∧ ∀ j, o'.test j = (o.test j || decide (j ∈ ticks ∧ c j)) := by
  induction ticks generalizing o with
  | nil => exact ⟨hwf, hn, by simp⟩
  | cons t ticks ih =>
    have ht : t < o.n := hn ▸ hticks t mem_cons_self
    have hone : let o₁ := if c t then o.set t else o
        o₁.Wf ∧ o₁.n = n ∧ ∀ j, o₁.test j = (o.test j || decide (j = t ∧ c j)) := by
      intro o₁
      by_cases hc : c t
      · rw [show o₁ = o.set t from if_pos hc]
        refine ⟨hwf.set ht, hn, fun j => ?_⟩
        rw [hwf.test_set ht]
        by_cases hj : j = t
        · simp [hj, hc]
        · simp [hj]
      · rw [show o₁ = o from if_neg hc]
        refine ⟨hwf, hn, fun j => ?_⟩
        by_cases hj : j = t
        · simp [hj, hc]
        · simp [hj]
    obtain ⟨hwf', hn', htest⟩ := ih hone.1 hone.2.1 fun u hu => hticks u (mem_cons_of_mem _ hu)
    refine ⟨hwf', hn', fun j => ?_⟩
    rw [foldl_cons, htest, hone.2.2, Bool.or_assoc, ← Bool.decide_or]
    simp only [mem_cons, or_and_right]

theorem Relinking.rebuildOccupancy (hr : Relinking b q [] free) :
    Repr b.rebuildOccupancy q [] free := by
  obtain ⟨occ, hrepr⟩ := hr.repr
  have hcount : ∀ t s, b.countSide t s = (q t).countP fun h => (b.slot h).side = s := by
    intro t s
    have hwalk : b.levelOrders t = (q t).map b.slot := hrepr.levelOrders_eq t
    rw [countSide, hwalk, countP_map]
    rfl
  set n := b.compression.totalSlots with hn
  have hocc : ∀ s, let o := b.rebuildOccupancy.occ s
      o.Wf ∧ o.n = n ∧ ∀ j, o.test j = (occ s).test j := by
    intro s
    obtain ⟨hwf, hlen, htest⟩ := foldl_set (c := fun t => 0 < b.countSide t s)
      (Occupancy.wf_new n) (Occupancy.n_new n) fun t ht => mem_range.1 ht
    refine ⟨hwf, hlen, fun j => (htest j).trans ?_⟩
    have hold : (occ s).test j = decide (0 < (q j).countP fun h => (b.slot h).side = s) :=
      (hrepr.level j).occTest s
    rw [Occupancy.test_new, Bool.false_or, hold, hcount, decide_eq_decide, mem_range]
    refine and_iff_right_of_imp fun hpos => ?_
    by_contra hge
    rw [hrepr.outside j (Nat.le_of_not_lt hge)] at hpos
    exact absurd hpos (by simp)
  have heq : b.rebuildOccupancy = b.counted q b.rebuildOccupancy.occ := by
    have hlevels : b.rebuildOccupancy.activeLevels =
        (b.counted q b.rebuildOccupancy.occ).activeLevels := by
      funext t
      show (if t < n then _ else _) = _
      have hcounts : b.countSide t = fun s => (q t).countP fun h => (b.slot h).side = s :=
        funext (hcount t)
      split_ifs with ht
      · rw [hcounts]
        rfl
      · have hnil : q t = [] := hrepr.outside t (Nat.le_of_not_lt ht)
        show b.activeLevels t = { b.activeLevels t with
          count := fun s => (q t).countP fun h => (b.slot h).side = s }
        rw [hnil]
        have hzero := hr.count t
        cases hlevel : b.activeLevels t
        rw [hlevel] at hzero
        dsimp only at hzero
        rw [hzero]
        rfl
    exact congrArg (fun levels => { b with
      activeLevels := levels
      occ := b.rebuildOccupancy.occ }) hlevels
  rw [heq]
  exact
    { hrepr with
      level := fun t => (hrepr.level t).congr rfl (fun s => (hocc s).2.2 t) (hrepr.level t).path
        (hrepr.level t).back fun _ _ => ⟨rfl, rfl, rfl⟩
      occWf := fun s => (hocc s).1
      occN := fun s => (hocc s).2.1 }

end Orderbook

/-! ## The users -/

namespace UserRegistry

variable {r : UserRegistry}

theorem restoreUserSlots_eq (hc : Consistent r) {is : List Nat} (hnodup : is.Nodup)
    (r₀ : UserRegistry) (occupied : Nat → Bool)
    (his : ∀ i ∈ is, i < bump ∧ occupied i = false ∧ r.userMap (r.userStates i).userId = some i ∧
      r₀.userMap (r.userStates i).userId = none) :
    ∃ r', restoreUserSlots bump (is.map fun i => ⟨i, r.userStates i⟩) r₀ occupied =
        .ok (r', fun i => occupied i || decide (i ∈ is)) ∧
      (∀ i, r'.userStates i = if i ∈ is then r.userStates i else r₀.userStates i) ∧
      ∀ u i, r'.userMap u = some i ↔ i ∈ is ∧ r.userMap u = some i ∨ r₀.userMap u = some i := by
  induction is generalizing r₀ occupied with
  | nil => exact ⟨r₀, by simp [restoreUserSlots], by simp, by simp⟩
  | cons i is ih =>
    obtain ⟨hnotMem, hnodup'⟩ := nodup_cons.1 hnodup
    obtain ⟨_, hnew, hmap, hfresh⟩ := his i mem_cons_self
    -- The users of the other slots are others.
    have hother : ∀ j ∈ is, (r.userStates j).userId ≠ (r.userStates i).userId := by
      intro j hj heq
      obtain ⟨-, -, hmapj, -⟩ := his j (mem_cons_of_mem _ hj)
      rw [heq, hmap] at hmapj
      exact hnotMem (Option.some.inj hmapj ▸ hj)
    obtain ⟨r', hrun, hstates, hmaps⟩ := ih hnodup'
      { r₀.modify i fun _ => r.userStates i with
        userMap := update r₀.userMap (r.userStates i).userId (some i) }
      (update occupied i true) fun j hj => by
        obtain ⟨hlt', _, hmap', hfresh'⟩ := his j (mem_cons_of_mem _ hj)
        refine ⟨hlt', ?_, hmap', ?_⟩
        · rwa [update_of_ne fun heq : j = i => hnotMem (heq ▸ hj)]
        · exact (update_of_ne (hother j hj) ..).trans hfresh'
    refine ⟨r', ?_, fun j => ?_, fun u j => ?_⟩
    · rw [map_cons, restoreUserSlots, if_neg (by rw [hnew]; simp; omega),
        if_neg (by rw [hfresh]; simp), hrun]
      exact congrArg (fun f => Except.ok (r', f)) (funext (or_mem_cons occupied i is))
    · rw [hstates]
      by_cases hj : j = i
      · subst hj
        simp [hnotMem, UserRegistry.modify]
      · simp [hj, UserRegistry.modify]
    · rw [hmaps]
      show j ∈ is ∧ _ ∨ update r₀.userMap _ _ u = some j ↔ _
      by_cases hu : u = (r.userStates i).userId
      · rw [hu, update_self, hmap, hfresh]
        simp only [mem_cons, Option.some.injEq, reduceCtorEq, or_false]
        constructor
        · rintro (⟨hj, rfl⟩ | rfl)
          · exact ⟨.inr hj, rfl⟩
          · exact ⟨.inl rfl, rfl⟩
        · rintro ⟨-, rfl⟩
          exact .inr rfl
      · rw [update_of_ne hu]
        simp only [mem_cons]
        refine or_congr_left ⟨fun ⟨hj, hm⟩ => ⟨.inr hj, hm⟩, fun ⟨hj, hm⟩ => ⟨?_, hm⟩⟩
        rcases hj with rfl | hj
        · exact absurd (hc.owner u j hm).2.symm hu
        · exact hj

def occupiedSlots (r : UserRegistry) : List Nat :=
  (range r.userBump).filter fun i => r.userMap (r.userStates i).userId = some i

theorem capture_users (r : UserRegistry) :
    r.capture.users = r.occupiedSlots.map fun i => ⟨i, r.userStates i⟩ := by
  unfold capture occupiedSlots
  dsimp only
  induction range r.userBump with
  | nil => rfl
  | cons i l ih =>
    by_cases hi : r.userMap (r.userStates i).userId = some i
    · rw [filterMap_cons, if_pos hi, filter_cons_of_pos (by simpa using hi), ih]
      rfl
    · rw [filterMap_cons, if_neg hi, filter_cons_of_neg (by simpa using hi), ih]

theorem Consistent.mem_occupiedSlots (hc : Consistent r) {i : Nat} :
    i ∈ r.occupiedSlots ↔ ∃ u, r.userMap u = some i := by
  unfold occupiedSlots
  rw [mem_filter, mem_range, decide_eq_true_iff]
  constructor
  · rintro ⟨-, hmap⟩
    exact ⟨_, hmap⟩
  · rintro ⟨u, hu⟩
    obtain ⟨hlt, hown⟩ := hc.owner u i hu
    exact ⟨hlt, hown ▸ hu⟩

/-- **The users survive a snapshot.** -/
theorem Consistent.restoreUsers (hc : Consistent r) (hcov : r.Covered) :
    ∃ r', Book.restoreUsers r.capture = .ok r' ∧ Consistent r' ∧ r'.Covered ∧
      ∀ u, r'.stateOf u = r.stateOf u := by
  have hnodup : r.occupiedSlots.Nodup := nodup_range.filter _
  obtain ⟨r', hrun, hstates, hmaps⟩ := restoreUserSlots_eq hc hnodup {}
    (fun _ => false) fun i hi => by
    obtain ⟨hlt, hmap⟩ := mem_filter.1 hi
    exact ⟨mem_range.1 hlt, rfl, of_decide_eq_true hmap, rfl⟩
  have hunused : ∀ i ∈ r.userFreeList, i < r.userBump ∧ i ∉ r.occupiedSlots := fun i hi => by
    obtain ⟨hlt, -, hnone⟩ := hc.free i hi
    rw [hc.mem_occupiedSlots]
    exact ⟨hlt, fun ⟨u, hu⟩ => hnone u hu⟩
  obtain ⟨hfree, htracked⟩ := restoreFree_cover .invalidUserFreeList hc.nodup hunused
    fun i hi => (hcov i hi).symm.imp_left hc.mem_occupiedSlots.2
  have hmap : r'.userMap = r.userMap := by
    funext u
    refine Option.ext fun i => ?_
    rw [hmaps]
    constructor
    · rintro (⟨-, h⟩ | h)
      · exact h
      · exact absurd h (by simp)
    · exact fun h => .inl ⟨hc.mem_occupiedSlots.2 ⟨u, h⟩, h⟩
  have hstate : ∀ u i, r.userMap u = some i → r'.userStates i = r.userStates i := fun u i h => by
    rw [hstates, if_pos (hc.mem_occupiedSlots.2 ⟨u, h⟩)]
  refine ⟨{ r' with
    userFreeList := r.userFreeList
    userBump := r.userBump
    maintenanceCursor := r.maintenanceCursor }, ?_, ⟨?_, ?_, ?_, hc.nodup⟩, ?_, ?_⟩
  · have hcapture : r.capture = ⟨r.userBump, r.maintenanceCursor,
        r.occupiedSlots.map fun i => ⟨i, r.userStates i⟩, r.userFreeList⟩ := by
      rw [← capture_users]
      rfl
    rw [hcapture]
    unfold Book.restoreUsers
    simp only [hrun, hfree, htracked]
    rfl
  · intro u i h
    have h' : r.userMap u = some i := hmap ▸ h
    obtain ⟨hlt, hown⟩ := hc.owner u i h'
    exact ⟨hlt, (congrArg UserState.userId (hstate u i h')).trans hown⟩
  · intro i hi hne
    have hmem : i ∈ r.occupiedSlots := by
      by_contra hnot
      refine hne ?_
      rw [hstates, if_neg hnot]
    have hsame : r'.userStates i = r.userStates i := by rw [hstates, if_pos hmem]
    rw [hmap, hsame]
    exact of_decide_eq_true (mem_filter.1 hmem).2
  · intro i hi
    obtain ⟨hlt, -, hnone⟩ := hc.free i hi
    refine ⟨hlt, ?_, fun u => ?_⟩
    · rw [hstates, if_neg (hunused i hi).2]
    · rw [hmap]
      exact hnone u
  · intro i hi
    rw [show ({ r' with
      userFreeList := r.userFreeList
      userBump := r.userBump
      maintenanceCursor := r.maintenanceCursor } : UserRegistry).userMap = r.userMap from hmap]
    exact hcov i hi
  · intro u
    rw [hmap]
    unfold stateOf
    cases h : r.userMap u with
    | none => rfl
    | some i => exact hstate u i h

end UserRegistry

/-! ## The book -/

namespace Orderbook

variable {b : Orderbook} {q : Nat → List Nat} {free : List Nat}
  {c : Orderbook}

/-- What a restored book has in common with the one the snapshot was taken of. -/
structure Restored (b c : Orderbook) : Prop where
  exchange : c.exchange = b.exchange
  held : c.held = b.held
  compression : c.compression = CompressionMap.new b.compression.midPrice b.config.tickSize
  config : c.config = b.config
  state : c.state = .normal
  capacity : c.orders.capacity = b.orders.capacity
  consistent : c.users.Consistent
  covered : c.users.Covered
  stateOf : ∀ u, c.users.stateOf u = b.users.stateOf u

def restoredSlab (b : Orderbook) (q : Nat → List Nat) : Slab OrderSlot where
  slots := fun h => if h ∈ b.handles q then ((b.slot h).snapshot h).slot else default
  capacity := b.orders.capacity
  bumpNext := b.orders.bumpNext

def restoredBook (b : Orderbook) (q : Nat → List Nat) (free : List Nat) (users : UserRegistry) :
    Orderbook :=
  { new b.config b.orders.capacity b.compression.midPrice with
    orders := (b.restoredSlab q).restoreFreeHandles free
    users := users }

theorem Queued.slot_restoredBook (hq : Queued b q free) (users : UserRegistry) {h : Nat}
    (hh : h ∈ b.handles q) :
    (b.restoredBook q free users).slot h = ((b.slot h).snapshot h).slot := by
  have hnodup := hq.handles_cover.nodup_iff.2 nodup_range
  have hnot : h ∉ free := fun hmem => (nodup_append.1 hnodup).2.2 h hh h hmem rfl
  refine ((slots_restoreFreeHandles (b.restoredSlab q) free h).1 hnot).trans ?_
  exact if_pos hh

theorem Queued.relinking_restoredBook (hq : Queued b q free) (users : UserRegistry) :
    Relinking (b.restoredBook q free users) (fun _ => []) (b.handles q) free := by
  let b₀ : Orderbook :=
    { new b.config b.orders.capacity b.compression.midPrice with
      orders := b.restoredSlab q
      users := users }
  have hcover : (b.handles q ++ free ++ []).Perm (range b.orders.bumpNext) := by
    rw [append_nil]
    exact hq.handles_cover
  have hbase : Repr b₀ (fun _ => []) (b.handles q ++ free) [] :=
    repr_nil rfl rfl trivial rfl hcover hq.repr.bump_le hq.repr.cap_le
  refine ⟨⟨_, hbase.restoreFreeHandles rfl⟩, fun _ => rfl, fun h hh => ?_⟩
  rw [hq.slot_restoredBook users hh]
  exact ⟨rfl, rfl⟩

theorem Queued.restore_eq (hq : Queued b q free) {users : UserRegistry}
    (husers : restoreUsers b.users.capture = .ok users) (htick : 0 < b.config.tickSize)
    (hlot : 0 < b.config.lotSize)
    (hlink : relinkOrders ((b.handles q).map fun h => (b.slot h).snapshot h)
      (b.restoredBook q free users) = .ok c) :
    restore (b.snapshot q free) b.orders.capacity =
      .ok ((({ c with sequence := b.sequence } : Orderbook).rebuildOccupancy.refreshBest
        .buy).refreshBest .sell) := by
  have hnodup := hq.handles_cover.nodup_iff.2 nodup_range
  obtain ⟨hhandles, hfreeNodup, hdisjoint⟩ := nodup_append.1 hnodup
  have hbump : ∀ h ∈ b.handles q ++ free, h < b.orders.bumpNext := fun h hh =>
    mem_range.1 (hq.handles_cover.mem_iff.1 hh)
  have hslots : restoreSlots b.orders.bumpNext ((b.handles q).map fun h => (b.slot h).snapshot h)
      { (new b.config b.orders.capacity b.compression.midPrice).orders with
        bumpNext := b.orders.bumpNext } (fun _ => false) =
      .ok (b.restoredSlab q, fun h => false || decide (h ∈ b.handles q)) :=
    restoreSlots_eq (fun _ => rfl) hhandles _ fun h hh =>
      ⟨hbump h (mem_append_left _ hh), rfl⟩
  obtain ⟨hfree, htracked⟩ := restoreFree_cover .invalidFreeList hfreeNodup
    (fun h hh => ⟨hbump h (mem_append_right _ hh), fun hmem => hdisjoint h hmem h hh rfl⟩)
    fun h hh => mem_append.1 (hq.handles_cover.mem_iff.2 (mem_range.2 hh))
  unfold restore
  rw [if_neg (show ¬ (b.snapshot q free).slabCapacity < (b.snapshot q free).slabBump from
      Nat.not_lt.2 hq.repr.bump_le),
    if_neg (show ¬ ((b.snapshot q free).config.tickSize ≤ 0 ∨
      (b.snapshot q free).config.lotSize ≤ 0) from fun h => h.elim htick.not_ge hlot.not_ge)]
  have hmax : max b.orders.capacity (b.snapshot q free).slabCapacity = b.orders.capacity :=
    max_self _
  rw [hmax]
  dsimp only [snapshot]
  unfold handles at hslots hfree htracked hlink
  rw [hslots]
  dsimp only
  rw [hfree]
  dsimp only
  rw [htracked, if_neg Bool.false_ne_true, husers]
  dsimp only
  unfold restoredBook at hlink
  rw [hlink]

theorem Relinking.setSequence {loose : List Nat} (hr : Relinking b q loose free) (n : Nat) :
    Relinking { b with sequence := n } q loose free := by
  obtain ⟨⟨occ, hrepr⟩, hcount, hunlinked⟩ := hr
  exact ⟨⟨occ, hrepr.congr rfl rfl rfl rfl rfl rfl rfl rfl fun _ _ _ => ⟨rfl, rfl, rfl⟩⟩, hcount,
    hunlinked⟩

theorem entries_eq_map (b : Orderbook) (q : Nat → List Nat) :
    b.entries q = (b.handles q).map b.entry := by
  unfold entries handles contents view
  rw [map_flatMap]

/-- The queues of a restored book: the orders of each slot of the new map, in the order in which
they were captured. -/
def relinked (b : Orderbook) (q : Nat → List Nat) (m : CompressionMap) (t : Nat) : List Nat :=
  (b.handles q).filter fun h => m.priceToIndex (b.slot h).price = t

/-- The orders of a book, found again under their handles and in the queues of their slots. -/
structure Relinked (b : Orderbook) (q : Nat → List Nat) (c : Orderbook) : Prop where
  entry : ∀ h ∈ b.handles q, c.entry h = b.entry h
  active : ∀ h, (c.slot h).active = (b.slot h).active
  total : ∀ t, (b.relinked q c.compression t).map c.entry =
    ((b.entries q).filter fun e => c.compression.priceToIndex e.order.price = t)

theorem Relinked.filter_entries (hr : Relinked b q c) (hexact : c.compression.Exact)
    (s : Side) (p : Int) :
    (c.entries (b.relinked q c.compression)).filter (atPrice s p) =
      (b.entries q).filter (atPrice s p) := by
  have hview : ∀ t, c.view (b.relinked q c.compression) t =
      (b.entries q).filter fun e => c.compression.priceToIndex e.order.price = t := hr.total
  unfold entries at hview ⊢
  rw [filter_contents (hexact.priceToIndex_lt p), hview, filter_filter]
  · refine filter_congr fun e _ => ?_
    by_cases hat : atPrice s p e
    · rw [(of_decide_eq_true hat).2, decide_eq_true rfl, Bool.and_true]
    · rw [Bool.eq_false_iff.2 hat, Bool.false_and]
  · intro t ht e he hat
    rw [hview] at he
    have hidx := of_decide_eq_true (mem_filter.1 he).2
    rw [(of_decide_eq_true hat).2] at hidx
    exact ht hidx.symm

theorem Relinked.held (hr : Relinked b q c) (hq : Queued b q free) : c.held = b.held := by
  funext h
  unfold Orderbook.held
  rw [hr.active h]
  by_cases hactive : (b.slot h).active = true
  · rw [if_pos hactive, if_pos hactive]
    have hentry := hr.entry h (hq.mem_handles.2 hactive)
    exact congrArg (fun e : Entry => some e.order) hentry
  · rw [if_neg hactive, if_neg hactive]

theorem Queued.restored (hq : Queued b q free) (hfits : b.exchange.totalQty ≤ i64Max)
    (hconsistent : b.users.Consistent) (hcovered : b.users.Covered)
    (hlot : 0 < b.config.lotSize)
    (hsized : CompressionMap.WellSized b.compression.midPrice b.config.tickSize) :
    ∃ c, restore (b.snapshot q free) b.orders.capacity =
        .ok ((c.refreshBest .buy).refreshBest .sell) ∧
      Queued c (b.relinked q c.compression) free ∧ Relinked b q c ∧
      c.compression = CompressionMap.new b.compression.midPrice b.config.tickSize ∧
      c.priceAsc = c.compression.buildPriceAsc ∧ c.config = b.config ∧ c.state = .normal ∧
      c.orders.capacity = b.orders.capacity ∧ c.users.Consistent ∧ c.users.Covered ∧
      ∀ u, c.users.stateOf u = b.users.stateOf u := by
  obtain ⟨users, husers, hconsistent', hcovered', hstateOf⟩ := hconsistent.restoreUsers hcovered
  have hslot : ∀ h ∈ b.handles q, (b.restoredBook q free users).slot h =
      ((b.slot h).snapshot h).slot := fun h hh => hq.slot_restoredBook users hh
  have hqty : (b.restoredBook q free users).queueQty (b.handles q) = b.exchange.totalQty := by
    rw [hq.totalQty_exchange, entries_eq_map]
    unfold queueQty total
    rw [map_map]
    exact congrArg List.sum (map_congr_left fun h hh => by rw [hslot h hh]; rfl)
  have hpos : ∀ h ∈ b.handles q, 0 < (b.slot h).remainingQty := fun h hh => by
    obtain ⟨t, -, ht⟩ := mem_contents.1 hh
    exact hq.pos t h ht
  have hhandle : ∀ h, ((b.slot h).snapshot h).handle = h := fun _ => rfl
  obtain ⟨c, hlink, hrewired, hrelinking⟩ :=
    relinkOrders_eq hhandle (hq.relinking_restoredBook users)
      (fun h hh => by rw [hslot h hh]; exact ⟨rfl, (hpos h hh).le⟩)
      (fun h _ => hsized.exact.priceToIndex_lt _)
      (fun t => by
        rw [hqty]
        exact (Int.zero_add _).trans_le hfits)
  have hcomp : c.compression = CompressionMap.new b.compression.midPrice b.config.tickSize :=
    hrewired.frame.compression
  have hqueues : (fun t => [] ++ (b.handles q).filter fun h =>
      (b.restoredBook q free users).compression.priceToIndex ((b.slot h).snapshot h).price = t) =
        b.relinked q c.compression := by
    rw [hcomp]
    rfl
  rw [hqueues] at hrelinking
  have hfields : ∀ h ∈ b.handles q, (c.slot h).remainingQty = (b.slot h).remainingQty ∧
      (c.slot h).active = true ∧ (c.slot h).resting = (b.slot h).resting := by
    intro h hh
    obtain ⟨-, hqty, hactive, -, hresting⟩ := fields_of_bare (hrewired.bare h)
    rw [hqty, hactive, hresting, hslot h hh]
    exact ⟨rfl, rfl, rfl⟩
  have hcapacity := (slots_restoreFreeHandles (b.restoredSlab q) free 0).2.2
  have hactive : ∀ h, (c.slot h).active = (b.slot h).active := by
    intro h
    by_cases hh : h ∈ b.handles q
    · rw [(hfields h hh).2.1, hq.mem_handles.1 hh]
    · have hslab : ((b.restoredSlab q).slots h).active = false := by
        unfold restoredSlab
        dsimp only
        rw [if_neg hh]
        rfl
      rw [(fields_of_bare (hrewired.bare h)).2.2.1,
        Bool.eq_false_iff.2 fun hactive => hh (hq.mem_handles.2 hactive)]
      exact (slots_restoreFreeHandles (b.restoredSlab q) free h).2.1.trans hslab
  have hentry : ∀ h ∈ b.handles q, c.entry h = b.entry h := fun h hh =>
    congrArg (Entry.mk h) (hfields h hh).2.2
  have hmem : ∀ t, ∀ h ∈ b.relinked q c.compression t, h ∈ b.handles q := fun _ _ hh =>
    (mem_filter.1 hh).1
  refine ⟨_, hq.restore_eq husers hsized.tick_pos hlot hlink, ?_, ⟨hentry, hactive, ?_⟩, hcomp, ?_,
    hrewired.frame.config, hrewired.frame.state, hrewired.frame.capacity.trans hcapacity,
    ?_⟩
  · refine ⟨(hrelinking.setSequence b.sequence).rebuildOccupancy, fun h => ?_, fun t h hh => ?_⟩
    · refine (Bool.eq_iff_iff.1 (hactive h)).trans (hq.mem_handles.symm.trans ⟨fun hh => ?_, ?_⟩)
      · exact ⟨_, mem_filter.2 ⟨hh, decide_eq_true rfl⟩⟩
      · exact fun ⟨t, ht⟩ => hmem t h ht
    · exact (hfields h (hmem t h hh)).1.symm ▸ hpos h (hmem t h hh)
  · intro t
    rw [entries_eq_map, filter_map]
    exact map_congr_left fun h hh => hentry h (hmem t h hh)
  · exact hrewired.frame.priceAsc.trans (congrArg CompressionMap.buildPriceAsc hcomp.symm)
  · have husers' : c.users = users := hrewired.users
    exact ⟨husers' ▸ hconsistent', husers' ▸ hcovered', husers' ▸ hstateOf⟩

/-- **Restoring a captured book.** The book restored from a snapshot holds the same orders in the
same price-time order under the same handles, and the same users. -/
theorem Sound.restore (hs : Sound b q free) (hfits : b.exchange.totalQty ≤ i64Max)
    (hconsistent : b.users.Consistent) (hcovered : b.users.Covered)
    (hlot : 0 < b.config.lotSize)
    (hsized : CompressionMap.WellSized b.compression.midPrice b.config.tickSize)
    (hregular : ∀ s, ∀ o ∈ b.exchange.orders s,
      (CompressionMap.new b.compression.midPrice b.config.tickSize).Regular o.price ∧
        b.config.tickSize ∣ o.price) :
    ∃ c q', Book.restore (b.snapshot q free) b.orders.capacity = .ok c ∧ Sound c q' free ∧
      Restored b c := by
  obtain ⟨c, hrun, hq, hrelinked, hcomp, hasc, hconfig, hstate, hcap, husers, hcov, hof⟩ :=
    hs.queued.restored hfits hconsistent hcovered hlot hsized
  have hexact : c.compression.Exact := hcomp ▸ hsized.exact
  have hplaced : Placed c.compression (c.view (b.relinked q c.compression)) := by
    intro t e he
    have he' : e ∈ (b.entries q).filter fun e => c.compression.priceToIndex e.order.price = t :=
      hrelinked.total t ▸ he
    obtain ⟨hmem, hidx⟩ := mem_filter.1 he'
    obtain ⟨u, -, hu⟩ := mem_contents.1 hmem
    have hplace := hs.placed u e hu
    obtain ⟨hreg, haligned⟩ := hregular e.order.side e.order (hs.queued.mem_orders hu)
    rw [hcomp] at hidx ⊢
    exact ⟨of_decide_eq_true hidx, hreg, hsized.tickSize_new.symm ▸ haligned, hplace.pos,
      hplace.fits⟩
  have hq₁ : Queued (c.refreshBest .buy) (b.relinked q c.compression) free :=
    hq.congr rfl rfl rfl rfl
  have hq₂ : Queued ((c.refreshBest .buy).refreshBest .sell) (b.relinked q c.compression) free :=
    hq₁.congr rfl rfl rfl rfl
  have hexchange : ((c.refreshBest .buy).refreshBest .sell).exchange = b.exchange :=
    exchange_congr hs.queued hq₂ fun s p => hrelinked.filter_entries hexact s p
  refine ⟨_, _, hrun, ⟨⟨hq₂, hexact, hasc, hplaced, fun s => ?_⟩, ?_, ?_⟩,
    hexchange, hrelinked.held hs.queued, hcomp, hconfig, hstate, hcap, husers, hcov, hof⟩
  · cases s with
    | buy => exact (hq.tracks_refreshBest hexact hasc hplaced .buy).congr rfl rfl fun _ _ _ =>
        Iff.rfl
    | sell => exact hq₁.tracks_refreshBest hexact hasc hplaced .sell
  · show c.compression.tickSize ∣ c.config.tickSize
    rw [hcomp, hconfig, hsized.tickSize_new]
  · exact hexchange ▸ hs.uncrossed

end Orderbook

end Rsx.Book
