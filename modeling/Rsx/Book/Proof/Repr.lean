import Rsx.Book.Orderbook
import Rsx.Book.Proof.Occupancy
import Rsx.Lib.Buckets

/-!
# The book as lists of handles

`Repr b q loose free` says that the linked lists, counters and bitmaps of the book `b` represent the
queues `q` (one list of handles per slot), with the free list `free`.  Handles in `loose` are
allocated but in no queue: between `alloc` and the link, between an unlink and `free`, and all of
them at the start of a migration.
-/

namespace Rsx.Book

open LinkedList Buckets List OrderSlot

theorem length_le_of_lt {l : List Nat} {n : Nat} (hnodup : l.Nodup) (hlt : ∀ x ∈ l, x < n) :
    l.length ≤ n := by
  have hsub := (hnodup.subperm fun x hx => mem_range.2 (hlt x hx)).length_le
  rwa [length_range] at hsub

def OrderSlot.data (slot : OrderSlot) : OrderSlot :=
  { slot with next := NONE, prev := NONE }

theorem OrderSlot.fields_of_data {s s' : OrderSlot} (h : s'.data = s.data) :
    s'.tickIndex = s.tickIndex ∧ s'.side = s.side ∧ s'.remainingQty = s.remainingQty ∧
      s'.active = s.active ∧ s'.price = s.price :=
  ⟨(congrArg tickIndex h :), (congrArg side h :),
    (congrArg remainingQty h :), (congrArg active h :),
    (congrArg price h :)⟩

namespace Orderbook

variable {b b' : Orderbook} {q : Nat → List Nat} {loose free : List Nat} {t u h : Nat}

def slot (b : Orderbook) (h : Nat) : OrderSlot :=
  b.orders.slots h

def nextOf (b : Orderbook) (h : Nat) : Nat :=
  (b.slot h).next

def prevOf (b : Orderbook) (h : Nat) : Nat :=
  (b.slot h).prev

def queueQty (b : Orderbook) (l : List Nat) : Int :=
  (l.map fun h => (b.slot h).remainingQty).sum

/-- The level at slot `t` represents the queue `l`: its links, its counters, and the bits of the
bitmaps for it. -/
structure LevelRepr (b : Orderbook) (t : Nat) (l : List Nat) : Prop where
  path : Path b.nextOf l NONE
  back : Back b.prevOf NONE l
  head : (b.activeLevels t).head = l.headD NONE
  tail : (b.activeLevels t).tail = l.getLastD NONE
  tick : ∀ h ∈ l, (b.slot h).tickIndex = t
  orderCount : (b.activeLevels t).orderCount = l.length
  count : ∀ s, (b.activeLevels t).count s = l.countP fun h => (b.slot h).side = s
  totalQty : (b.activeLevels t).totalQty = b.queueQty l
  nonneg : ∀ h ∈ l, 0 ≤ (b.slot h).remainingQty
  fits : b.queueQty l ≤ i64Max
  occTest : ∀ s, (b.occ s).test t = decide (0 < (b.activeLevels t).count s)

structure Repr (b : Orderbook) (q : Nat → List Nat) (loose free : List Nat) : Prop where
  level : ∀ t, LevelRepr b t (q t)
  outside : ∀ t, b.compression.totalSlots ≤ t → q t = []
  freePath : Path b.nextOf free NONE
  freeHead : b.orders.freeHead = free.headD NONE
  cover : (contents b.compression.totalSlots q ++ loose ++ free).Perm
    (List.range b.orders.bumpNext)
  bump_le : b.orders.bumpNext ≤ b.orders.capacity
  cap_le : b.orders.capacity ≤ NONE
  occWf : ∀ s, (b.occ s).Wf
  occN : ∀ s, (b.occ s).n = b.compression.totalSlots

namespace LevelRepr

variable {l : List Nat}

theorem queueQty_nonneg (hl : LevelRepr b t l) : 0 ≤ b.queueQty l := by
  refine sum_nonneg fun x hx => ?_
  obtain ⟨h, hh, rfl⟩ := mem_map.1 hx
  exact hl.nonneg h hh

theorem congr (hl : LevelRepr b t l) (hlevel : b'.activeLevels t = b.activeLevels t)
    (hocc : ∀ s, (b'.occ s).test t = (b.occ s).test t)
    (hnext : Path b'.nextOf l NONE) (hprev : Back b'.prevOf NONE l)
    (hslot : ∀ h ∈ l, (b'.slot h).tickIndex = (b.slot h).tickIndex ∧
      (b'.slot h).side = (b.slot h).side ∧ (b'.slot h).remainingQty = (b.slot h).remainingQty) :
    LevelRepr b' t l := by
  have hqty : b'.queueQty l = b.queueQty l :=
    congrArg List.sum (map_congr_left fun h hh => (hslot h hh).2.2)
  exact
    { path := hnext
      back := hprev
      head := hlevel ▸ hl.head
      tail := hlevel ▸ hl.tail
      tick := fun h hh => (hslot h hh).1.trans (hl.tick h hh)
      orderCount := hlevel ▸ hl.orderCount
      count := fun s => by
        rw [hlevel, hl.count s]
        exact countP_congr fun h hh => by rw [(hslot h hh).2.1]
      totalQty := by rw [hlevel, hqty, hl.totalQty]
      nonneg := fun h hh => by rw [(hslot h hh).2.2]; exact hl.nonneg h hh
      fits := hqty ▸ hl.fits
      occTest := fun s => by rw [hocc, hlevel, hl.occTest] }

end LevelRepr

namespace Repr

variable (hb : Repr b q loose free)
include hb

theorem nodup : (contents b.compression.totalSlots q ++ loose ++ free).Nodup :=
  hb.cover.nodup_iff.2 nodup_range

theorem lt_total (hh : h ∈ q t) : t < b.compression.totalSlots := by
  by_contra hge
  rw [hb.outside t (by omega)] at hh
  exact not_mem_nil hh

theorem lt_bump (hh : h ∈ q t) : h < b.orders.bumpNext := by
  refine mem_range.1 (hb.cover.mem_iff.1 ?_)
  simp only [mem_append, mem_contents]
  exact .inl (.inl ⟨t, hb.lt_total hh, hh⟩)

theorem lt_capacity (hh : h ∈ q t) : h < b.orders.capacity :=
  (hb.lt_bump hh).trans_le hb.bump_le

theorem ne_none (hh : h ∈ q t) : h ≠ NONE := by
  have := hb.lt_capacity hh
  have := hb.cap_le
  omega

theorem none_notMem (t : Nat) : NONE ∉ q t :=
  fun hmem => hb.ne_none hmem rfl

theorem nodup_queue (t : Nat) : (q t).Nodup := by
  by_cases ht : t < b.compression.totalSlots
  · exact nodup_bucket (nodup_append.1 (nodup_append.1 hb.nodup).1).1 ht
  · rw [hb.outside t (by omega)]
    exact nodup_nil

theorem eq_of_mem (ht : h ∈ q t) (hu : h ∈ q u) : t = u :=
  Buckets.eq_of_mem (nodup_append.1 (nodup_append.1 hb.nodup).1).1
    (hb.lt_total ht) (hb.lt_total hu) ht hu

theorem notMem_free (hh : h ∈ q t) : h ∉ free := by
  intro hfree
  refine (nodup_append.1 hb.nodup).2.2 h ?_ h hfree rfl
  exact mem_append_left _ (mem_contents.2 ⟨t, hb.lt_total hh, hh⟩)

theorem loose_notMem (hh : h ∈ loose) (t : Nat) : h ∉ q t := by
  intro hmem
  refine (nodup_append.1 (nodup_append.1 hb.nodup).1).2.2 h ?_ h hh rfl
  exact mem_contents.2 ⟨t, hb.lt_total hmem, hmem⟩

theorem nodup_loose : loose.Nodup :=
  (nodup_append.1 (nodup_append.1 hb.nodup).1).2.1

theorem loose_notMem_free (hh : h ∈ loose) : h ∉ free :=
  fun hfree => (nodup_append.1 hb.nodup).2.2 h (mem_append_right _ hh) h hfree rfl

theorem length_le_capacity (t : Nat) : (q t).length ≤ b.orders.capacity :=
  length_le_of_lt (hb.nodup_queue t) fun _ => hb.lt_capacity

theorem walk_eq (t : Nat) : b.orders.walk (b.activeLevels t).head = q t := by
  rw [(hb.level t).head]
  exact follow_eq (hb.level t).path (hb.none_notMem t) (hb.length_le_capacity t)

theorem levelOrders_eq (t : Nat) : b.levelOrders t = (q t).map b.slot := by
  rw [levelOrders, hb.walk_eq]
  rfl

theorem congr (hlevels : b'.activeLevels = b.activeLevels)
    (hocc : b'.occ = b.occ) (hcomp : b'.compression = b.compression)
    (hfreeHead : b'.orders.freeHead = b.orders.freeHead)
    (hbump : b'.orders.bumpNext = b.orders.bumpNext)
    (hcap : b'.orders.capacity = b.orders.capacity)
    (hnext : b'.nextOf = b.nextOf) (hprev : b'.prevOf = b.prevOf)
    (hslot : ∀ t, ∀ h ∈ q t, (b'.slot h).tickIndex = (b.slot h).tickIndex ∧
      (b'.slot h).side = (b.slot h).side ∧ (b'.slot h).remainingQty = (b.slot h).remainingQty) :
    Repr b' q loose free where
  level t := (hb.level t).congr (by rw [hlevels]) (fun s => by rw [hocc])
    (hnext ▸ (hb.level t).path) (hprev ▸ (hb.level t).back) (hslot t)
  outside := hcomp ▸ hb.outside
  freePath := hnext ▸ hb.freePath
  freeHead := hfreeHead ▸ hb.freeHead
  cover := by rw [hcomp, hbump]; exact hb.cover
  bump_le := by rw [hbump, hcap]; exact hb.bump_le
  cap_le := hcap ▸ hb.cap_le
  occWf := hocc ▸ hb.occWf
  occN := by rw [hocc, hcomp]; exact hb.occN

end Repr

end Orderbook

end Rsx.Book
