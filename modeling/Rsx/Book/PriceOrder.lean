import Rsx.Book.Proof.Compression

/-!
# The order of the compression map

Walking the regions of `build_price_asc` meets the slots in the order of their prices, each of them
once, and zone 0 keeps the multiples of the tick apart.  Where no product overflows this holds
exactly if the slot counts survive their casts to `u32`.  -/

namespace Rsx.Book.CompressionMap

open List

/-- The price and its signed distance from the mid are `i64` values. -/
def InRange (m : CompressionMap) (p : Int) : Prop :=
  FitsI64 p ∧ FitsI64 (p - m.midPrice)

structure PriceOrdered (m : CompressionMap) : Prop where
  index_lt : ∀ p, m.InRange p → m.priceToIndex p < m.totalSlots
  ascending : ∀ p q, m.InRange p → m.InRange q → p ≤ q →
    m.slotsAsc.idxOf (m.priceToIndex p) ≤ m.slotsAsc.idxOf (m.priceToIndex q)
  one_region : ∀ t < m.totalSlots, m.buildPriceAsc.countP (fun r => r.1 ≤ t ∧ t < r.2) = 1
  apart : ∀ p q, m.InRange p → m.InRange q → m.zone p = 0 → m.zone q = 0 → m.tickSize ∣ p →
    m.tickSize ∣ q → m.priceToIndex p = m.priceToIndex q → p = q

section Ordered

variable {m : CompressionMap} (hm : m.Exact)
include hm

theorem Exact.exists_region {t : Nat} (ht : t < m.totalSlots) :
    ∃ k < 10, (m.region k).1 ≤ t ∧ t < (m.region k).2 := by
  have htotal := hm.total_eq
  have hfour := hm.slots_four
  obtain ⟨z, hz, hlo, hhi⟩ :
      ∃ z ≤ 4, m.baseIndices z ≤ t ∧ t < m.baseIndices z + m.zoneSlots z := by
    by_contra hnone
    have hnext : ∀ z ≤ 4, m.baseIndices z ≤ t → m.baseIndices z + m.zoneSlots z ≤ t :=
      fun z hz hlo => not_lt.1 fun hhi => hnone ⟨z, hz, hlo, hhi⟩
    have hall : ∀ z ≤ 4, m.baseIndices z ≤ t := by
      intro z hz
      induction z with
      | zero => exact hm.base_zero.trans_le (Nat.zero_le t)
      | succ z ih =>
        rw [hm.base_succ z hz]
        exact hnext z (by omega) (ih (by omega))
    have := hnext 4 le_rfl (hall 4 le_rfl)
    omega
  -- The slot is on one of the two sides of its zone.
  have hside : (m.bidRegion z).1 ≤ t ∧ t < (m.bidRegion z).2 ∨
      (m.askRegion z).1 ≤ t ∧ t < (m.askRegion z).2 := by
    unfold bidRegion askRegion
    rcases eq_or_ne z 4 with rfl | h4
    · simp only [if_true]
      omega
    · simp only [h4, if_false]
      split_ifs <;> omega
  rcases hside with hbid | hask
  · refine ⟨4 - z, by omega, ?_⟩
    rw [region, if_pos (by omega), Nat.sub_sub_self hz]
    exact hbid
  · refine ⟨5 + z, by omega, ?_⟩
    rw [region, if_neg (by omega), Nat.add_sub_cancel_left]
    exact hask

theorem Exact.one_region (hsize : ∀ z < 4, m.zoneSlots z ≠ 1) {t : Nat} (ht : t < m.totalSlots) :
    m.buildPriceAsc.countP (fun r => r.1 ≤ t ∧ t < r.2) = 1 := by
  obtain ⟨k, hk, hlo, hhi⟩ := hm.exists_region ht
  have hreg : zoneOfRank k = 4 ∨ 2 ≤ m.zoneSlots (zoneOfRank k) := by
    have hsub := hm.region_subset k
    have hle : zoneOfRank k ≤ 4 := by
      unfold zoneOfRank
      split_ifs <;> omega
    have := hsize (zoneOfRank k)
    omega
  rw [buildPriceAsc_eq, countP_filter, countP_map]
  calc _ = (List.range 10).count k := countP_congr fun l hl => ?_
    _ = 1 := count_eq_one_of_mem nodup_range (mem_range.2 hk)
  simp only [Function.comp_apply, Bool.and_eq_true, decide_eq_true_eq, beq_iff_eq]
  constructor
  · rintro ⟨⟨hlo', hhi'⟩, -⟩
    exact (hm.region_unique hk (mem_range.1 hl) hreg hlo hhi hlo' hhi').symm
  · rintro rfl
    exact ⟨⟨hlo, hhi⟩, by omega⟩

theorem Exact.priceOrdered (hreg : ∀ p, m.Regular p) (hsize : ∀ z < 4, m.zoneSlots z ≠ 1) :
    m.PriceOrdered where
  index_lt := fun p _ => hm.priceToIndex_lt p
  ascending := by
    intro p q _ _ hpq
    by_contra hlt
    have hp := idxOf_lt_length_iff.2 (hm.mem_slotsAsc (hreg p))
    have hq := idxOf_lt_length_iff.2 (hm.mem_slotsAsc (hreg q))
    have hbelow := pairwise_iff_getElem.1 hm.slotsAsc_sorted _ _ hq hp (not_le.1 hlt) q p (hreg q)
      (hreg p) (getElem_idxOf hq).symm (getElem_idxOf hp).symm
    omega
  one_region := fun _ ht => hm.one_region hsize ht
  apart := by
    intro p q _ _ hp hq hpt hqt heq
    refine hm.eq_of_priceToIndex_eq (hreg p) (hreg q) hpt hqt heq ?_
    have hslots : 2 ≤ m.zoneSlots 0 := by
      have := (hreg p).resolve_left (by omega)
      rwa [hp] at this
    have hoff := m.offset_le p
    rw [half, hp] at hoff
    rw [hm.priceToIndex_zone_zero hp hslots]
    split_ifs <;> omega

end Ordered

theorem priceToIndex_congr {m : CompressionMap} {p q : Int} (hzone : m.zone p = m.zone q)
    (hside : m.midPrice ≤ p ↔ m.midPrice ≤ q) (hoff : m.offset p = m.offset q) :
    m.priceToIndex p = m.priceToIndex q := by
  rw [priceToIndex_def, priceToIndex_def, half, half, hzone, hoff]
  simp only [hside]

section Truncated

variable {midPrice tick d p : Int} (hmid : 0 < midPrice) (hfits : midPrice * 50 ≤ i64Max)
  (htick : 0 < tick) (htickLe : 1000 * tick ≤ i64Max)

include hmid hfits in
theorem percentOf_eq (hp : 0 ≤ p) (hle : p ≤ 50) : percentOf midPrice p = midPrice * p / 100 := by
  have hmul : midPrice * p ≤ midPrice * 50 := Int.mul_le_mul_of_nonneg_left hle hmid.le
  rw [percentOf_eq_min hmid.le hp]
  exact min_eq_left (Int.ediv_le_ediv (by decide) (hmul.trans hfits))

include hmid htick htickLe in
theorem rawSlots_zero : rawSlots midPrice tick 0 = (percentOf midPrice 5 + tick - 1) / tick * 2 :=
  zone0Slots_eq (percentOf_nonneg hmid.le (by decide)) (percentOf_le hmid.le (by decide)) htick
    htickLe

include hmid hfits htick htickLe

/-- A price of the ask half of zone 0. -/
theorem zone_ask (hd : 0 ≤ d) (hlt : d < percentOf midPrice 5) :
    (new midPrice tick).InRange (midPrice + d) ∧ (new midPrice tick).zone (midPrice + d) = 0 ∧
      (new midPrice tick).offset (midPrice + d) =
        min (asU32 (d / tick)) ((new midPrice tick).zoneSlots 0 / 2 - 1) := by
  set m := new midPrice tick
  have h5 := percentOf_eq hmid hfits (show (0 : Int) ≤ 5 by decide) (by decide)
  have hmono := percentOf_mono hmid.le (show (0 : Int) ≤ 5 by decide)
    (show (5 : Int) ≤ 15 by decide)
  have hsub : midPrice + d - m.midPrice = d := add_sub_cancel_left midPrice d
  have hdist : m.distance (midPrice + d) = d := by
    rw [distance]
    omega
  have hzone : m.zone (midPrice + d) = 0 := by
    rw [zone, hdist]
    exact (if_pos (hlt.trans_le hmono)).trans (if_pos hlt)
  refine ⟨⟨?_, ?_⟩, hzone, ?_⟩
  · unfold FitsI64 i64Min
    omega
  · unfold FitsI64 i64Min
    omega
  · unfold offset half localOffset
    rw [hzone, hdist]
    show min (asU32 ((d - 0).tdiv (wrap64 (1 * max tick 1)))) _ = _
    rw [sub_zero, one_mul, max_eq_left (by omega), wrap64_of_nonneg htick.le (by omega),
      Int.tdiv_eq_ediv_of_nonneg hd]

/-- **A truncated zone 0** has fewer slots than prices, and its last slot takes two of them. -/
theorem not_priceOrdered_of_wide (hwide : 4294967296 ≤ rawSlots midPrice tick 0) :
    ¬ (new midPrice tick).PriceOrdered := by
  intro h
  have hask := fun d => zone_ask (d := d) hmid hfits htick htickLe
  set m := new midPrice tick
  have hmax : max tick 1 = tick := max_eq_left (by omega)
  have hslots : m.zoneSlots 0 = asU32 (rawSlots midPrice (max tick 1) 0) := rfl
  rw [hmax] at hslots
  rw [rawSlots_zero hmid htick htickLe] at hwide hslots
  generalize percentOf midPrice 5 = width at *
  have hceil := Int.ediv_mul_le (width + tick - 1) htick.ne'
  generalize (width + tick - 1) / tick = ticks at *
  have hbound := asU32_lt (ticks * 2)
  generalize hn : m.zoneSlots 0 / 2 = n at *
  have hlost : (n : Int) + 2147483648 ≤ ticks := by
    unfold asU32 at hslots
    omega
  have hroom : tick * (n + 2) ≤ tick * (ticks - 1) :=
    Int.mul_le_mul_of_nonneg_left (by omega) htick.le
  rw [Int.mul_sub, Int.mul_comm tick ticks, Int.mul_add] at hroom
  have hlow := Int.emod_nonneg (-midPrice) htick.ne'
  have hhigh := Int.emod_lt_of_pos (-midPrice) htick
  have hmod := Int.emod_def (-midPrice) tick
  generalize -midPrice % tick = r at *
  -- From slot `n` on all multiples of the tick share the last slot of the ask half.
  have hlast : ∀ j : Int, n ≤ j → j ≤ n + 1 → ∃ d, d = r + tick * j ∧ 0 ≤ d ∧
      m.InRange (midPrice + d) ∧ m.tickSize ∣ midPrice + d ∧ m.zone (midPrice + d) = 0 ∧
      m.offset (midPrice + d) = n - 1 := by
    intro j hj hj'
    have hnonneg : 0 ≤ tick * j := Int.mul_nonneg htick.le (by omega)
    have hle : tick * j ≤ tick * (n + 1) := Int.mul_le_mul_of_nonneg_left hj' htick.le
    rw [Int.mul_add] at hle
    obtain ⟨hrange, hzone, hoff⟩ := hask (r + tick * j) (by omega) (by omega)
    refine ⟨_, rfl, by omega, hrange, ⟨j - -midPrice / tick, ?_⟩, hzone, ?_⟩
    · rw [show m.tickSize = tick from hmax, Int.mul_sub]
      omega
    · rw [hoff, Int.add_mul_ediv_left _ _ htick.ne', Int.ediv_eq_zero_of_lt hlow hhigh,
        asU32_of_lt (by omega) (by omega)]
      omega
  obtain ⟨d, hd, hd0, hrange, hdvd, hzone, hoff⟩ := hlast n le_rfl (by omega)
  obtain ⟨d', hd', hd0', hrange', hdvd', hzone', hoff'⟩ := hlast (n + 1) (by omega) le_rfl
  have hside : m.midPrice ≤ midPrice + d ↔ m.midPrice ≤ midPrice + d' :=
    iff_of_true (le_add_of_nonneg_right hd0) (le_add_of_nonneg_right hd0')
  have heq := h.apart _ _ hrange hrange' hzone hzone' hdvd hdvd'
    (priceToIndex_congr (hzone.trans hzone'.symm) hside (hoff.trans hoff'.symm))
  rw [Int.mul_add] at hd'
  omega

theorem sum_rawSlots_le : rawSlots midPrice tick 1 + rawSlots midPrice tick 2 +
    rawSlots midPrice tick 3 ≤ (percentOf midPrice 5 + tick - 1) / tick := by
  have hzone : ∀ p q c : Int, 0 ≤ p → p ≤ q → 0 < c → c ≤ 1000 →
      compressedSlots (percentOf midPrice p) (percentOf midPrice q) c tick * tick ≤
        (percentOf midPrice q - percentOf midPrice p) * 2 / c := by
    intro p q c hp hpq hc hc'
    rw [compressedSlots_eq (percentOf_nonneg hmid.le hp) (percentOf_mono hmid.le hp hpq)
      (percentOf_le hmid.le (hp.trans hpq)) hc hc' htick htickLe, ← Int.ediv_ediv_of_nonneg hc.le]
    exact Int.ediv_mul_le _ htick.ne'
  have h1 := hzone 5 15 10 (by decide) (by decide) (by decide) (by decide)
  have h2 := hzone 15 30 100 (by decide) (by decide) (by decide) (by decide)
  have h3 := hzone 30 50 1000 (by decide) (by decide) (by decide) (by decide)
  have h5 := percentOf_eq hmid hfits (show (0 : Int) ≤ 5 by decide) (by decide)
  have h15 := percentOf_eq hmid hfits (show (0 : Int) ≤ 15 by decide) (by decide)
  have h30 := percentOf_eq hmid hfits (show (0 : Int) ≤ 30 by decide) (by decide)
  have h50 := percentOf_eq hmid hfits (show (0 : Int) ≤ 50 by decide) (by decide)
  have hone : percentOf midPrice 15 - percentOf midPrice 5 ≤
      2 * percentOf midPrice 5 + 2 := by omega
  refine Int.le_ediv_of_mul_le htick ?_
  show (compressedSlots _ _ _ _ + compressedSlots _ _ _ _ + compressedSlots _ _ _ _) * tick ≤ _
  rw [Int.add_mul, Int.add_mul]
  omega

/-- **A truncated total.**  The mid itself has an index past the number of slots. -/
theorem not_priceOrdered_of_many (hnarrow : rawSlots midPrice tick 0 < 4294967296)
    (hmany : 4294967296 ≤ rawSlots midPrice tick 0 + rawSlots midPrice tick 1 +
      rawSlots midPrice tick 2 + rawSlots midPrice tick 3 + 2) :
    ¬ (new midPrice tick).PriceOrdered := by
  intro h
  have hsum := sum_rawSlots_le hmid hfits htick htickLe
  have hzero := rawSlots_zero hmid htick htickLe
  have hn2 := rawSlots_nonneg midPrice tick 2
  have hn3 := rawSlots_nonneg midPrice tick 3
  have hpos : 0 < percentOf midPrice 5 := by
    by_contra hcon
    have hnone := percentOf_nonneg hmid.le (show (0 : Int) ≤ 5 by decide)
    have hquot : (percentOf midPrice 5 + tick - 1) / tick = 0 :=
      Int.ediv_eq_zero_of_lt (by omega) (by omega)
    omega
  obtain ⟨hrange, hzone, hoff⟩ := zone_ask hmid hfits htick htickLe le_rfl hpos
  set m := new midPrice tick
  have hslots : ∀ z, rawSlots midPrice tick z < 4294967296 →
      (m.zoneSlots z : Int) = rawSlots midPrice tick z := by
    intro z hz
    have hnonneg := rawSlots_nonneg midPrice tick z
    show ((asU32 (rawSlots midPrice (max tick 1) z) : Nat) : Int) = _
    rw [max_eq_left (by omega), asU32_of_lt hnonneg hz, Int.toNat_of_nonneg hnonneg]
  have hs0 := hslots 0 hnarrow
  have hs1 := hslots 1 (by omega)
  have hs2 := hslots 2 (by omega)
  have hs3 := hslots 3 (by omega)
  have hfour : m.zoneSlots 4 = 2 := rfl
  have hlt := h.index_lt _ hrange
  rw [priceToIndex_def, half, hzone, if_neg (by decide), if_neg (by omega),
    if_pos (show m.midPrice ≤ midPrice + 0 from (add_zero midPrice).ge)] at hlt
  rw [totalSlots, show m.baseIndices 0 = 0 from rfl] at hlt
  simp only [baseOf, Nat.mod_add_mod, hfour] at hlt
  omega

end Truncated

theorem mid_pos {midPrice tick : Int} (hfits : FitsI64 (midPrice * 50)) (htick : 0 < tick)
    (htickLe : 1000 * tick ≤ i64Max) (hslots : rawSlots midPrice tick 1 ≠ 0) : 0 < midPrice := by
  by_contra hneg
  have hlow : -i64Max ≤ 50 * midPrice := by
    unfold FitsI64 i64Min i64Max at *
    omega
  have h5 := percentOf_of_nonpos hlow (by omega) (show (0 : Int) ≤ 5 by decide) (by decide)
  have h15 := percentOf_of_nonpos hlow (by omega) (show (0 : Int) ≤ 15 by decide) (by decide)
  refine hslots (compressedSlots_of_le (by omega) ?_ (by decide) (by decide) htick htickLe)
  unfold i64Min i64Max at *
  omega

/-- **Price order.**  If neither the percentages nor the widths of the slots overflow and zones 1 to
3 have a slot on each side, the map keeps prices in order exactly if its slots, counted before the
casts to `u32`, are fewer than `2^32`. -/
theorem priceOrdered_iff {midPrice tickSize : Int} (hfits : FitsI64 (midPrice * 50))
    (htick : FitsI64 (1000 * max tickSize 1))
    (hzones : ∀ z, 1 ≤ z → z ≤ 3 → 2 ≤ (new midPrice tickSize).zoneSlots z) :
    (new midPrice tickSize).PriceOrdered ↔ WellSized midPrice (max tickSize 1) := by
  have hpos : 0 < max tickSize 1 := lt_of_lt_of_le Int.one_pos (le_max_right ..)
  have hmid : 0 < midPrice := by
    refine mid_pos hfits hpos htick.2 fun hzero => ?_
    have hone : 2 ≤ asU32 (rawSlots midPrice (max tickSize 1) 1) := hzones 1 le_rfl (by decide)
    rw [hzero] at hone
    exact absurd hone (by decide)
  rw [new_max] at hzones ⊢
  constructor
  · intro h
    refine ⟨hmid, hpos, htick.2, ?_⟩
    by_contra hmany
    rcases lt_or_ge (rawSlots midPrice (max tickSize 1) 0) 4294967296 with hnarrow | hwide
    · exact not_priceOrdered_of_many hmid hfits.2 hpos htick.2 hnarrow (not_lt.1 hmany) h
    · exact not_priceOrdered_of_wide hmid hfits.2 hpos htick.2 hwide h
  · intro h
    refine h.exact.priceOrdered (h.exact.regular_of_slots hzones) fun z hz => ?_
    rcases Nat.eq_zero_or_pos z with rfl | hz0
    · have := h.zoneSlots_zero
      omega
    · have := hzones z hz0 (by omega)
      omega

/-- The mid need not be a multiple of the tick. -/
theorem priceOrdered_iff_offTick : (new 1000003 10).PriceOrdered :=
  (priceOrdered_iff (by decide) (by decide) (by decide +kernel)).2 (by decide +kernel)

/-- Zone 0 should have some 43 thousand billion slots and gets 1000. -/
theorem priceOrdered_fails_truncated :
    FitsI64 (429496729610000 * 50) ∧ FitsI64 (1000 * max 1 1) ∧
      (∀ z ≤ 3, 1 ≤ z → 2 ≤ (new 429496729610000 1).zoneSlots z) ∧
      ¬ (new 429496729610000 1).PriceOrdered := by
  refine ⟨by decide, by decide, by decide +kernel, fun h => ?_⟩
  have heq := h.apart 429496729610600 429496729610700 ⟨by decide, by decide⟩ ⟨by decide, by decide⟩
    (by decide) (by decide) (by decide) (by decide) (by decide +kernel)
  exact absurd heq (by decide)

end Rsx.Book.CompressionMap
