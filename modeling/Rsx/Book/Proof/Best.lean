import Rsx.Book.Proof.Compression
import Rsx.Book.Proof.Level

/-!
# Best prices

The scan over the regions finds the slot of the best price of a side, and the walk of that slot
finds the price and the quantity resting there.
-/

namespace Rsx.Book

open Function PriceTime HasQty List CompressionMap

variable {m : CompressionMap} {s : Side} {t : Nat} {v : Nat → List Entry} {e : Entry}

structure CompressionMap.Places (m : CompressionMap) (t : Nat) (price : Int) : Prop where
  index : m.priceToIndex price = t
  regular : m.Regular price
  aligned : m.tickSize ∣ price
  pos : 0 < price
  fits : price ≤ i64Max

def Placed (m : CompressionMap) (v : Nat → List Entry) : Prop :=
  ∀ t, ∀ e ∈ v t, m.Places t e.order.price

structure IsBest (v : Nat → List Entry) (s : Side) (t : Nat) (e : Entry) : Prop where
  mem : e ∈ v t
  side : e.order.side = s
  best : ∀ u, ∀ e' ∈ v u, e'.order.side = s → s.key e.order.price ≤ s.key e'.order.price

def SideEmpty (v : Nat → List Entry) (s : Side) : Prop :=
  ∀ t, ∀ e ∈ v t, e.order.side ≠ s

def CompressionMap.slotsBest (m : CompressionMap) : Side → List Nat
  | .buy => m.slotsAsc.reverse
  | .sell => m.slotsAsc

theorem CompressionMap.mem_slotsBest (hm : m.Exact) {p : Int}
    (hp : m.Regular p) (s : Side) : m.priceToIndex p ∈ m.slotsBest s := by
  cases s with
  | buy => exact mem_reverse.2 (hm.mem_slotsAsc hp)
  | sell => exact hm.mem_slotsAsc hp

/-- Every price of slot `t` is better for side `s` than every price of slot `u`. -/
def CompressionMap.Before (m : CompressionMap) (s : Side) (t u : Nat) : Prop :=
  ∀ p p', m.Regular p → m.Regular p' → m.priceToIndex p = t → m.priceToIndex p' = u →
    s.key p < s.key p'

theorem CompressionMap.slotsBest_sorted (hm : m.Exact) (s : Side) :
    (m.slotsBest s).Pairwise (m.Before s) := by
  cases s with
  | buy =>
    refine pairwise_reverse.2 (hm.slotsAsc_sorted.imp ?_)
    intro t u h p p' hp hp' ht hu
    exact neg_lt_neg (h p' p hp' hp hu ht)
  | sell => exact hm.slotsAsc_sorted

theorem CompressionMap.before_or_before (hm : m.Exact) {u : Nat}
    (ht : t ∈ m.slotsBest s) (hu : u ∈ m.slotsBest s) (hne : u ≠ t) :
    m.Before s t u ∨ m.Before s u t := by
  obtain ⟨_, _, hsplit⟩ := append_of_mem ht
  have hsorted := slotsBest_sorted hm s
  rw [hsplit] at hsorted hu
  obtain ⟨-, hafter, hcross⟩ := pairwise_append.1 hsorted
  rcases mem_append.1 hu with hu | hu
  · exact .inr (hcross u hu t mem_cons_self)
  · rcases mem_cons.1 hu with rfl | hu
    · exact absurd rfl hne
    · exact .inl ((pairwise_cons.1 hafter).1 u hu)

theorem Placed.one_price (hm : m.Exact)
    (hplaced : Placed m v) (ht : t < m.zoneSlots 0) {e' : Entry} (he : e ∈ v t)
    (he' : e' ∈ v t) :
    e.order.price = e'.order.price := by
  have hat := hplaced t e he
  have hat' := hplaced t e' he'
  exact hm.eq_of_priceToIndex_eq hat.regular hat'.regular hat.aligned hat'.aligned
    (hat.index.trans hat'.index.symm) (hat.index.trans_lt ht)

theorem IsBest.congr {v' : Nat → List Entry}
    (h : IsBest v s t e) (hsame : ∀ u, ∀ e, e.order.side = s → (e ∈ v' u ↔ e ∈ v u)) :
    IsBest v' s t e :=
  ⟨(hsame t e h.side).2 h.mem, h.side, fun u e' he' hs =>
    h.best u e' ((hsame u e' hs).1 he') hs⟩

namespace Orderbook

variable {b b' : Orderbook} {q : Nat → List Nat} {free : List Nat} {t : Nat} {s : Side}

section

variable (hq : Queued b q free)
include hq

theorem Queued.occTest (s : Side) (t : Nat) :
    (b.occ s).test t = true ↔ ∃ e ∈ b.view q t, e.order.side = s := by
  have hl := hq.repr.level t
  rw [hl.occTest, decide_eq_true_eq, hl.count, countP_pos_iff]
  simp only [view, mem_map, decide_eq_true_eq]
  constructor
  · rintro ⟨h, hh, hs⟩
    exact ⟨b.entry h, ⟨h, hh, rfl⟩, hs⟩
  · rintro ⟨_, ⟨h, hh, rfl⟩, hs⟩
    exact ⟨h, hh, hs⟩

theorem Queued.scanNext_eq (hasc : b.priceAsc = b.compression.buildPriceAsc) (s : Side) :
    b.scanNext s = ((b.compression.slotsBest s).find? (b.occ s).test).getD NONE := by
  cases s with
  | buy =>
    unfold scanNext scanNextBid slotsBest slotsAsc
    rw [hasc, reverse_flatMap, find?_flatMap]
    simp only [(hq.repr.occWf .buy).findLastIn_eq]
    rfl
  | sell =>
    unfold scanNext scanNextAsk slotsBest slotsAsc
    rw [hasc, find?_flatMap]
    simp only [(hq.repr.occWf .sell).findFirstIn_eq]
    rfl

theorem Queued.scanNext_of_empty
    (hasc : b.priceAsc = b.compression.buildPriceAsc) (hempty : SideEmpty (b.view q) s) :
    b.scanNext s = NONE := by
  rw [hq.scanNext_eq hasc, find?_eq_none.2]
  · rfl
  · intro t _ htest
    obtain ⟨e, he, hs⟩ := (hq.occTest s t).1 htest
    exact hempty t e he hs

theorem Queued.scanNext_of_best (hm : b.compression.Exact)
    (hasc : b.priceAsc = b.compression.buildPriceAsc) (hplaced : Placed b.compression (b.view q))
    {e : Entry} (hbest : IsBest (b.view q) s t e) : b.scanNext s = t := by
  have hat := hplaced t e hbest.mem
  have hmem := mem_slotsBest hm hat.regular s
  rw [hat.index] at hmem
  obtain ⟨before, after, hsplit⟩ := append_of_mem hmem
  have hsorted := slotsBest_sorted hm s
  rw [hsplit] at hsorted
  rw [hq.scanNext_eq hasc, find?_eq_some_iff_append.2]
  · rfl
  · refine ⟨(hq.occTest s t).2 ⟨e, hbest.mem, hbest.side⟩, before, after, hsplit, ?_⟩
    -- An order of the side in an earlier slot would be better.
    intro u hu
    rw [Bool.not_eq_true']
    by_contra htest
    obtain ⟨e', he', hs'⟩ := (hq.occTest s u).1 (Bool.not_eq_false _ ▸ htest)
    have hat' := hplaced u e' he'
    have hlt := (pairwise_append.1 hsorted).2.2 u hu t mem_cons_self _ _
      hat'.regular hat.regular hat'.index hat.index
    exact absurd (hbest.best u e' he' hs') (not_le.2 hlt)

end

def atPrice (s : Side) (price : Int) (e : Entry) : Bool :=
  e.order.side = s ∧ e.order.price = price

structure Topped (s : Side) (l : List Entry) (top : Int × Int) : Prop where
  worst : s.key top.1 ≤ s.key s.worstPx
  best : ∀ e ∈ l, e.order.side = s → s.key top.1 ≤ s.key e.order.price
  qty : top.2 = total (l.filter (atPrice s top.1))
  attained : top.1 = s.worstPx ∨ ∃ e ∈ l, e.order.side = s ∧ e.order.price = top.1

theorem Topped.step {l : List Entry} {top : Int × Int} (htop : Topped s l top) {h : Nat}
    (hpos : ∀ e ∈ l, 0 < HasQty.qty e) (hqty : 0 < (b.slot h).remainingQty)
    (hfits : total (l ++ [b.entry h]) ≤ i64Max) :
    Topped s (l ++ [b.entry h]) (topStep s top (b.slot h)) := by
  have htotal : total [b.entry h] = (b.slot h).remainingQty := by
    rw [total_cons, total_nil, add_zero]
    rfl
  have hle := total_filter_le hpos (atPrice s top.1)
  have hnonneg := total_nonneg fun e (he : e ∈ l.filter (atPrice s top.1)) =>
    hpos e (mem_of_mem_filter he)
  rw [total_append] at hfits
  have hattained := htop.attained.imp_right fun ⟨e, he, hrest⟩ =>
    (⟨e, mem_append_left [b.entry h] he, hrest⟩ :
      ∃ e ∈ l ++ [b.entry h], e.order.side = s ∧ e.order.price = top.1)
  have hbest : s.key top.1 ≤ s.key (b.slot h).price ∨ (b.slot h).side ≠ s →
      ∀ e ∈ l ++ [b.entry h], e.order.side = s → s.key top.1 ≤ s.key e.order.price := by
    intro hor e he hs
    rcases mem_append.1 he with he | he
    · exact htop.best e he hs
    · rw [mem_singleton.1 he] at hs ⊢
      exact hor.resolve_right fun hne => hne hs
  unfold topStep
  split_ifs with hside himproves hequal
  · -- A better price: no earlier entry rests at it.
    have hlt := Side.improves_iff.1 himproves
    have hnone : l.filter (atPrice s (b.slot h).price) = [] := by
      rw [filter_eq_nil_iff]
      intro e he hat
      obtain ⟨hs, hp⟩ := of_decide_eq_true hat
      have := htop.best e he hs
      rw [hp] at this
      exact absurd this (not_le.2 hlt)
    refine ⟨hlt.le.trans htop.worst, ?_, ?_, .inr ⟨b.entry h, by simp, hside, rfl⟩⟩
    · intro e he hs
      rcases mem_append.1 he with he | he
      · exact hlt.le.trans (htop.best e he hs)
      · rw [mem_singleton.1 he]
        exact le_rfl
    · have hlast : [b.entry h].filter (atPrice s (b.slot h).price) = [b.entry h] :=
        filter_cons_of_pos (decide_eq_true ⟨hside, rfl⟩)
      rw [filter_append, hnone, hlast, nil_append, htotal]
  · have hlast : [b.entry h].filter (atPrice s top.1) = [b.entry h] :=
      filter_cons_of_pos (decide_eq_true ⟨hside, hequal⟩)
    refine ⟨htop.worst, hbest (.inl (by rw [hequal])), ?_, hattained⟩
    have hq := htop.qty
    rw [filter_append, hlast, total_append, htotal, ← hq]
    exact wrap64_of_nonneg (by omega) (by omega)
  · have hlast : [b.entry h].filter (atPrice s top.1) = [] :=
      filter_cons_of_neg fun hat => hequal (of_decide_eq_true hat).2
    have hge := not_lt.1 fun hlt => himproves (Side.improves_iff.2 hlt)
    refine ⟨htop.worst, hbest (.inl hge), ?_, hattained⟩
    rw [filter_append, hlast, append_nil, ← htop.qty]
  · have hlast : [b.entry h].filter (atPrice s top.1) = [] :=
      filter_cons_of_neg fun hat => hside (of_decide_eq_true hat).1
    refine ⟨htop.worst, hbest (.inr hside), ?_, hattained⟩
    rw [filter_append, hlast, append_nil, ← htop.qty]

theorem Queued.topped (hq : Queued b q free) (s : Side) (t : Nat) :
    Topped s (b.view q t) ((b.levelOrders t).foldl (topStep s) (s.worstPx, 0)) :=
  hq.foldl_levelOrders t ⟨le_rfl, by simp, rfl, .inl rfl⟩ fun _ _ _ h => h.step

theorem Queued.topAt_of_best (hq : Queued b q free) (hm : b.compression.Exact)
    (hplaced : Placed b.compression (b.view q)) {e : Entry} (hbest : IsBest (b.view q) s t e) :
    (b.topAt s t).1 = e.order.price ∧
      ((∀ e' ∈ b.view q t, e'.order.price = e.order.price → e'.order.side = s) →
        (b.topAt s t).2 = total ((b.view q t).filter (atPrice s e.order.price))) := by
  have hl := hq.repr.level t
  have hlt : t < b.compression.totalSlots := by
    have := hm.priceToIndex_lt e.order.price
    rwa [(hplaced t e hbest.mem).index] at this
  have hne : t ≠ NONE := by
    have := hm.total_lt
    unfold NONE
    omega
  have hcount : (b.activeLevels t).count s ≠ 0 := by
    have htest := (hq.occTest s t).2 ⟨e, hbest.mem, hbest.side⟩
    rw [hl.occTest, decide_eq_true_eq] at htest
    omega
  unfold topAt
  rw [if_neg hne, if_neg hcount]
  split_ifs with hzone
  · obtain ⟨h, hh, rfl⟩ := mem_map.1 hbest.mem
    have hhead : (b.activeLevels t).head ∈ q t := by
      rw [hl.head]
      cases hqt : q t with
      | nil => simp [hqt] at hh
      | cons => exact mem_cons_self
    refine ⟨Placed.one_price hm hplaced hzone (mem_map_of_mem hhead) hbest.mem, ?_⟩
    intro hone
    have hall : (b.view q t).filter (atPrice s (b.entry h).order.price) = b.view q t := by
      rw [filter_eq_self]
      intro e' he'
      have hp := Placed.one_price hm hplaced hzone he' hbest.mem
      exact decide_eq_true ⟨hone e' he' hp, hp⟩
    rw [hall, hl.totalQty, total, view, map_map]
    rfl
  · have htop := hq.topped s t
    have hprice : (foldl (topStep s) (s.worstPx, 0) (b.levelOrders t)).1 = e.order.price := by
      refine s.key_injective (le_antisymm (htop.best e hbest.mem hbest.side) ?_)
      rcases htop.attained with hworst | ⟨e', he', hs', hp'⟩
      · rw [hworst]
        have hat := hplaced t e hbest.mem
        exact s.key_worstPx (by have := hat.pos; unfold i64Min; omega) hat.fits
      · rw [← hp']
        exact hbest.best t e' he' hs'
    exact ⟨hprice, fun _ => by rw [htop.qty, hprice]⟩

def Tracks (b : Orderbook) (q : Nat → List Nat) (s : Side) : Prop :=
  (b.bestTick s = NONE ∧ b.bestPx s = 0 ∧ SideEmpty (b.view q) s) ∨
    ∃ e, IsBest (b.view q) s (b.bestTick s) e ∧ b.bestPx s = e.order.price

theorem Queued.exists_best (hq : Queued b q free) (s : Side) :
    SideEmpty (b.view q) s ∨ ∃ t e, IsBest (b.view q) s t e := by
  have hmem : ∀ {t e}, e ∈ b.view q t →
      e ∈ Buckets.contents b.compression.totalSlots (b.view q) := by
    intro t e he
    obtain ⟨_, hh, rfl⟩ := mem_map.1 he
    exact Buckets.mem_contents.2 ⟨t, hq.repr.lt_total hh, mem_map_of_mem hh⟩
  -- The head of the arranged side is a best entry.
  set l := arrange (fun e : Entry => s.key e.order.price)
    ((Buckets.contents b.compression.totalSlots (b.view q)).filter fun e => e.order.side = s)
    with hl
  have hside : ∀ t, ∀ e ∈ b.view q t, e.order.side = s → e ∈ l := fun t e he hs =>
    mem_arrange.2 (mem_filter.2 ⟨hmem he, decide_eq_true hs⟩)
  cases hlist : l with
  | nil =>
    left
    intro t e he hs
    have := hside t e he hs
    rw [hlist] at this
    exact not_mem_nil this
  | cons e rest =>
    right
    have hsorted : Sorted (fun e : Entry => s.key e.order.price) (e :: rest) :=
      hlist ▸ sorted_arrange _ _
    have he : e ∈ l := hlist ▸ mem_cons_self
    obtain ⟨hcontents, hs⟩ := mem_filter.1 (mem_arrange.1 he)
    obtain ⟨t, -, hmem⟩ := Buckets.mem_contents.1 hcontents
    exact ⟨t, e, hmem, of_decide_eq_true hs, fun u e' he' hs' =>
      hsorted.head_le (hlist ▸ hside u e' he' hs')⟩

theorem Queued.tracks_refreshBest (hq : Queued b q free) (hm : b.compression.Exact)
    (hasc : b.priceAsc = b.compression.buildPriceAsc) (hplaced : Placed b.compression (b.view q))
    (s : Side) : Tracks (b.refreshBest s) q s := by
  have htick : (b.refreshBest s).bestTick s = b.scanNext s := update_self ..
  have hpx : (b.refreshBest s).bestPx s = (b.topAt s (b.scanNext s)).1 := update_self ..
  unfold Tracks
  rw [htick, hpx]
  rcases hq.exists_best s with hempty | ⟨t, e, hbest⟩
  · left
    rw [hq.scanNext_of_empty hasc hempty]
    exact ⟨rfl, rfl, hempty⟩
  · right
    rw [hq.scanNext_of_best hm hasc hplaced hbest]
    exact ⟨e, hbest, (hq.topAt_of_best hm hplaced hbest).1⟩

theorem Tracks.congr {q' : Nat → List Nat} (h : Tracks b q s)
    (htick : b'.bestTick s = b.bestTick s) (hpx : b'.bestPx s = b.bestPx s)
    (hsame : ∀ u, ∀ e, e.order.side = s → (e ∈ b'.view q' u ↔ e ∈ b.view q u)) :
    Tracks b' q' s := by
  unfold Tracks at h ⊢
  rw [htick, hpx]
  rcases h with ⟨hnone, hzero, hempty⟩ | ⟨e, hbest, hprice⟩
  · exact .inl ⟨hnone, hzero, fun t e he hs => hempty t e ((hsame t e hs).1 he) hs⟩
  · exact .inr ⟨e, hbest.congr hsame, hprice⟩

end Orderbook

end Rsx.Book
