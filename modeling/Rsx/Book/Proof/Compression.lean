import Rsx.Book.Compression

/-!
# Geometry of the compression map

A map whose slot counts fit `u32` assigns the prices of a side and a zone to one half of the zone's
slots, in price order, and in zone 0 one slot to each tick-aligned price.  Listing the regions of
`build_price_asc` one after the other therefore lists the slots in price order, as far as prices of
zones with at least two slots are concerned.
-/

namespace Rsx.Book.CompressionMap

open List

variable {midPrice p inner tickSize : Int}
  {outer ticks : Int} {k t : Nat}

/-- The map around `midPrice` has no counter that leaves its machine type: the slots of all zones,
before the cast to `u32`, are fewer than `2^32`, and the raw width of the widest slot fits `i64`. -/
structure WellSized (midPrice tickSize : Int) : Prop where
  mid_pos : 0 < midPrice
  tick_pos : 0 < tickSize
  tick_le : 1000 * tickSize ≤ i64Max
  slots_lt : rawSlots midPrice tickSize 0 + rawSlots midPrice tickSize 1 +
    rawSlots midPrice tickSize 2 + rawSlots midPrice tickSize 3 + 2 < 4294967296

instance (midPrice tickSize : Int) : Decidable (WellSized midPrice tickSize) :=
  decidable_of_iff
    (0 < midPrice ∧ 0 < tickSize ∧ 1000 * tickSize ≤ i64Max ∧
      rawSlots midPrice tickSize 0 + rawSlots midPrice tickSize 1 +
        rawSlots midPrice tickSize 2 + rawSlots midPrice tickSize 3 + 2 < 4294967296)
    ⟨fun ⟨hm, ht, hl, hs⟩ => ⟨hm, ht, hl, hs⟩, fun h => ⟨h.1, h.2, h.3, h.4⟩⟩

/-- What a well-sized map satisfies, free of machine arithmetic. -/
structure Exact (m : CompressionMap) : Prop where
  tick_pos : 0 < m.tickSize
  tick_le : 1000 * m.tickSize ≤ i64Max
  thresholds_mono : ∀ z < 3, m.thresholds z ≤ m.thresholds (z + 1)
  thresholds_le : m.thresholds 3 ≤ i64Max / 100
  compressions_pos : ∀ z < 4, 0 < m.compressions z
  compressions_le : ∀ z < 4, m.compressions z ≤ 1000
  compressions_zero : m.compressions 0 = 1
  base_zero : m.baseIndices 0 = 0
  base_succ : ∀ z < 4, m.baseIndices (z + 1) = m.baseIndices z + m.zoneSlots z
  slots_four : m.zoneSlots 4 = 2
  total_eq : m.totalSlots = m.baseIndices 4 + 2
  total_lt : m.totalSlots < 4294967296
  zone0_width : m.thresholds 0 ≤ (m.zoneSlots 0 / 2 : Nat) * m.tickSize
  zone_width : ∀ z < 4,
    m.thresholds z - m.zoneStart z < 4294967296 * (m.compressions z * m.tickSize)

section

variable (hmid : 0 ≤ midPrice)
include hmid

theorem percentOf_eq_min (hp : 0 ≤ p) :
    percentOf midPrice p = min (midPrice * p / 100) (i64Max / 100) := by
  have hnonneg : 0 ≤ midPrice * p := Int.mul_nonneg hmid hp
  unfold percentOf
  rw [Int.tdiv_eq_ediv_of_nonneg hnonneg]
  generalize midPrice * p = x at hnonneg
  have hmin : i64Min ≤ x := by unfold i64Min; omega
  by_cases hle : x ≤ i64Max
  · omega
  · omega

theorem percentOf_mono {q : Int} (hp : 0 ≤ p) (hpq : p ≤ q) :
    percentOf midPrice p ≤ percentOf midPrice q := by
  rw [percentOf_eq_min hmid hp, percentOf_eq_min hmid (hp.trans hpq)]
  have hmul : midPrice * p ≤ midPrice * q := Int.mul_le_mul_of_nonneg_left hpq hmid
  omega

theorem percentOf_nonneg (hp : 0 ≤ p) : 0 ≤ percentOf midPrice p := by
  have hmul : 0 ≤ midPrice * p := Int.mul_nonneg hmid hp
  have hbound : (0 : Int) ≤ i64Max / 100 := by decide
  rw [percentOf_eq_min hmid hp]
  omega

theorem percentOf_le (hp : 0 ≤ p) : percentOf midPrice p ≤ i64Max / 100 := by
  rw [percentOf_eq_min hmid hp]
  exact min_le_right _ _

end

theorem percentOf_of_nonpos (hlow : -i64Max ≤ 50 * midPrice) (hmid : midPrice ≤ 0) (hp : 0 ≤ p)
    (hle : p ≤ 50) : percentOf midPrice p = -(-midPrice * p / 100) := by
  have hge : midPrice * 50 ≤ midPrice * p := mul_le_mul_of_nonpos_left hle hmid
  have hnonpos : midPrice * p ≤ 0 := Int.mul_nonpos_of_nonpos_of_nonneg hmid hp
  unfold percentOf
  rw [if_pos ⟨by simp only [i64Max, i64Min] at hlow ⊢; omega, by simp only [i64Max]; omega⟩]
  have hneg : midPrice * p = -(-midPrice * p) := by rw [neg_mul, neg_neg]
  rw [hneg, Int.neg_tdiv, Int.tdiv_eq_ediv_of_nonneg]
  omega

theorem compressedSlots_eq (hinner : 0 ≤ inner)
    (hle : inner ≤ outer) (houter : outer ≤ i64Max / 100) (hticks : 0 < ticks)
    (hticksLe : ticks ≤ 1000) (htick : 0 < tickSize) (htickLe : 1000 * tickSize ≤ i64Max) :
    compressedSlots inner outer ticks tickSize = (outer - inner) * 2 / (ticks * tickSize) := by
  have hpos : 0 < ticks * tickSize := Int.mul_pos hticks htick
  have hwidth : ticks * tickSize ≤ i64Max :=
    (Int.mul_le_mul_of_nonneg_right hticksLe htick.le).trans htickLe
  unfold compressedSlots
  rw [wrap64_of_nonneg (by omega) (by unfold i64Max at *; omega), wrap64_of_nonneg hpos.le hwidth,
    Int.tdiv_eq_ediv_of_nonneg (by omega)]
  exact max_eq_left (Int.ediv_nonneg (by omega) hpos.le)

theorem compressedSlots_of_le (hle : outer ≤ inner)
    (hlow : i64Min ≤ (outer - inner) * 2) (hticks : 0 < ticks) (hticksLe : ticks ≤ 1000)
    (htick : 0 < tickSize) (htickLe : 1000 * tickSize ≤ i64Max) :
    compressedSlots inner outer ticks tickSize = 0 := by
  have hwidth : wrap64 (ticks * tickSize) = ticks * tickSize := by
    refine wrap64_of_nonneg (Int.mul_pos hticks htick).le (le_trans ?_ htickLe)
    exact Int.mul_le_mul_of_nonneg_right hticksLe htick.le
  have hspan : wrap64 ((outer - inner) * 2) = (outer - inner) * 2 :=
    wrap64_of_mem hlow (by simp only [i64Max]; omega)
  unfold compressedSlots
  rw [hwidth, hspan]
  have hnonpos := Int.tdiv_nonneg (a := -((outer - inner) * 2)) (b := ticks * tickSize) (by omega)
    (Int.mul_pos hticks htick).le
  rw [Int.neg_tdiv] at hnonpos
  omega

theorem zone0Slots_eq (hinner : 0 ≤ inner) (hle : inner ≤ i64Max / 100)
    (htick : 0 < tickSize) (htickLe : 1000 * tickSize ≤ i64Max) :
    zone0Slots inner tickSize = (inner + tickSize - 1) / tickSize * 2 := by
  have hquot : (inner + tickSize - 1) / tickSize ≤ inner + tickSize - 1 :=
    Int.ediv_le_self _ (by omega)
  have hquotNonneg : 0 ≤ (inner + tickSize - 1) / tickSize := Int.ediv_nonneg (by omega) htick.le
  have hsum : wrap64 (inner + tickSize - 1) = inner + tickSize - 1 :=
    wrap64_of_nonneg (by omega) (by unfold i64Max at *; omega)
  unfold zone0Slots
  rw [max_eq_left hinner, hsum, Int.tdiv_eq_ediv_of_nonneg (by omega),
    wrap64_of_nonneg (by omega) (by unfold i64Max at *; omega)]
  exact max_eq_left (by omega)

theorem new_max (midPrice tickSize : Int) :
    new midPrice tickSize = new midPrice (max tickSize 1) := by
  unfold new
  rw [max_assoc, max_self]

theorem width_lt_of_slots_lt {width raw : Int} (hraw : 0 < raw)
    (hslots : width * 2 / raw < 4294967296) : width < 4294967296 * raw := by
  have hlt := Int.lt_mul_of_ediv_lt hraw hslots
  omega

theorem baseOf_eq_sum {slots : Nat → Nat}
    (h : slots 0 + slots 1 + slots 2 + slots 3 + slots 4 < 4294967296) :
    (∀ z < 5, baseOf slots (z + 1) = baseOf slots z + slots z) ∧ baseOf slots 5 < 4294967296 := by
  have h1 : baseOf slots 1 = slots 0 := by simp only [baseOf]; omega
  have h2 : baseOf slots 2 = slots 0 + slots 1 := by rw [baseOf]; omega
  have h3 : baseOf slots 3 = slots 0 + slots 1 + slots 2 := by rw [baseOf]; omega
  have h4 : baseOf slots 4 = slots 0 + slots 1 + slots 2 + slots 3 := by rw [baseOf]; omega
  have h5 : baseOf slots 5 = slots 0 + slots 1 + slots 2 + slots 3 + slots 4 := by
    rw [baseOf]; omega
  refine ⟨fun z hz => ?_, by omega⟩
  match z with
  | 0 => rw [h1, baseOf, Nat.zero_add]
  | 1 => rw [h2, h1]
  | 2 => rw [h3, h2]
  | 3 => rw [h4, h3]
  | 4 => rw [h5, h4]

section WellSized

variable {midPrice tickSize : Int}
  {z : Nat}

theorem rawSlots_nonneg (midPrice tickSize : Int) (z : Nat) : 0 ≤ rawSlots midPrice tickSize z :=
  match z with
  | 0 | 1 | 2 | 3 => le_max_right _ _
  | _ + 4 => (by decide : (0 : Int) ≤ 2)

theorem compressions_new_pos (midPrice tickSize : Int) (hz : z < 4) :
    0 < (new midPrice tickSize).compressions z :=
  match z with
  | 0 | 1 | 2 | 3 => Nat.succ_pos _

variable (h : WellSized midPrice tickSize)
include h

theorem WellSized.tickSize_new : (new midPrice tickSize).tickSize = tickSize :=
  max_eq_left (by have := h.tick_pos; omega)

theorem WellSized.zoneSlots_new (hz : z < 5) :
    ((new midPrice tickSize).zoneSlots z : Int) = rawSlots midPrice tickSize z := by
  have hnonneg := rawSlots_nonneg midPrice tickSize
  have hslots := h.slots_lt
  have hn0 := hnonneg 0
  have hn1 := hnonneg 1
  have hn2 := hnonneg 2
  have hn3 := hnonneg 3
  have hlt : rawSlots midPrice tickSize z < 4294967296 :=
    match z with
    | 0 | 1 | 2 | 3 => by omega
    | _ + 4 => (by decide : (2 : Int) < 4294967296)
  change ((asU32 (rawSlots midPrice (new midPrice tickSize).tickSize z) : Nat) : Int) = _
  rw [h.tickSize_new, asU32_of_lt (hnonneg z) hlt]
  exact Int.toNat_of_nonneg (hnonneg z)

theorem WellSized.base_new : (∀ z < 5, baseOf (new midPrice tickSize).zoneSlots (z + 1) =
      baseOf (new midPrice tickSize).zoneSlots z + (new midPrice tickSize).zoneSlots z) ∧
      (new midPrice tickSize).totalSlots < 4294967296 := by
  refine baseOf_eq_sum ?_
  have hslots := h.slots_lt
  have hs0 := h.zoneSlots_new (z := 0) (by omega)
  have hs1 := h.zoneSlots_new (z := 1) (by omega)
  have hs2 := h.zoneSlots_new (z := 2) (by omega)
  have hs3 := h.zoneSlots_new (z := 3) (by omega)
  have hs4 : ((new midPrice tickSize).zoneSlots 4 : Int) = 2 := h.zoneSlots_new (by omega)
  omega

theorem WellSized.zoneSlots_compressed (hz : z < 3) :
    ((new midPrice tickSize).zoneSlots (z + 1) : Int) =
      ((new midPrice tickSize).thresholds (z + 1) - (new midPrice tickSize).thresholds z) * 2 /
        ((new midPrice tickSize).compressions (z + 1) * tickSize) := by
  have hmid := h.mid_pos.le
  rw [h.zoneSlots_new (by omega)]
  match z with
  | 0 | 1 | 2 =>
    exact compressedSlots_eq (percentOf_nonneg hmid (by decide))
      (percentOf_mono hmid (by decide) (by decide)) (percentOf_le hmid (by decide)) (by decide)
      (by decide) h.tick_pos h.tick_le

theorem WellSized.zoneSlots_zero : ((new midPrice tickSize).zoneSlots 0 : Int) =
      ((new midPrice tickSize).thresholds 0 + tickSize - 1) / tickSize * 2 := by
  rw [h.zoneSlots_new (by omega)]
  exact zone0Slots_eq (percentOf_nonneg h.mid_pos.le (by decide))
    (percentOf_le h.mid_pos.le (by decide)) h.tick_pos h.tick_le

theorem WellSized.zone0_width : (new midPrice tickSize).thresholds 0 ≤
      ((new midPrice tickSize).zoneSlots 0 / 2 : Nat) * tickSize := by
  have hslots := h.zoneSlots_zero
  generalize (new midPrice tickSize).thresholds 0 = width at hslots ⊢
  have hhalf : (((new midPrice tickSize).zoneSlots 0 / 2 : Nat) : Int) =
      (width + tickSize - 1) / tickSize := by omega
  have hceil := Int.lt_ediv_add_one_mul_self (width + tickSize - 1) h.tick_pos
  rw [Int.add_mul] at hceil
  rw [hhalf]
  omega

theorem WellSized.zone_width (hz : z < 4) :
    (new midPrice tickSize).thresholds z - (new midPrice tickSize).zoneStart z <
      4294967296 * ((new midPrice tickSize).compressions z * tickSize) := by
  have hlt : ((new midPrice tickSize).zoneSlots z : Int) < 4294967296 := asU32_lt _
  cases z with
  | zero =>
    have htick := h.tick_pos
    rw [h.zoneSlots_zero] at hlt
    generalize (new midPrice tickSize).thresholds 0 = width at hlt ⊢
    have hwidth : width + tickSize - 1 < 4294967296 * tickSize :=
      Int.lt_mul_of_ediv_lt htick (by omega)
    change width - 0 < 4294967296 * (1 * tickSize)
    omega
  | succ =>
    have hticks := Int.natCast_pos.2 (compressions_new_pos midPrice tickSize hz)
    rw [h.zoneSlots_compressed (by omega)] at hlt
    exact width_lt_of_slots_lt (Int.mul_pos hticks h.tick_pos) hlt

theorem WellSized.exact : Exact (new midPrice tickSize) where
  tick_pos := by rw [h.tickSize_new]; exact h.tick_pos
  tick_le := by rw [h.tickSize_new]; exact h.tick_le
  thresholds_mono := fun z hz =>
    match z with
    | 0 | 1 | 2 => percentOf_mono h.mid_pos.le (by decide) (by decide)
  thresholds_le := percentOf_le h.mid_pos.le (by decide)
  compressions_pos := fun _ hz => compressions_new_pos midPrice tickSize hz
  compressions_le := fun z hz =>
    match z with
    | 0 | 1 | 2 | 3 => Nat.le_of_ble_eq_true rfl
  compressions_zero := rfl
  base_zero := rfl
  base_succ := fun z hz => h.base_new.1 z (by omega)
  slots_four := rfl
  total_eq := h.base_new.1 4 (by omega)
  total_lt := h.base_new.2
  zone0_width := by rw [h.tickSize_new]; exact h.zone0_width
  zone_width := fun z hz => by rw [h.tickSize_new]; exact h.zone_width hz

end WellSized

variable (m : CompressionMap)

def zone (price : Int) : Nat :=
  m.zoneOf (m.distance price)

/-- The price falls in a zone that has a slot on each side. -/
def Regular (price : Int) : Prop :=
  m.zone price = 4 ∨ 2 ≤ m.zoneSlots (m.zone price)
  deriving Decidable

def half (price : Int) : Nat :=
  m.zoneSlots (m.zone price) / 2

def offset (price : Int) : Nat :=
  m.localOffset (m.zone price) (m.half price) (m.distance price)

def rank (price : Int) : Nat :=
  if m.midPrice ≤ price then 5 + m.zone price else 4 - m.zone price

def region (k : Nat) : Nat × Nat :=
  if k < 5 then m.bidRegion (4 - k) else m.askRegion (k - 5)

theorem buildPriceAsc_eq :
    m.buildPriceAsc = ((List.range 10).map m.region).filter fun r => r.1 < r.2 :=
  rfl

section Geometry

variable {m} {p q : Int}
  {d : Int} {z : Nat}

theorem zone_le_four (m : CompressionMap) (p : Int) : m.zone p ≤ 4 := by
  unfold zone zoneOf
  split_ifs <;> omega

theorem rank_lt_ten (p : Int) : m.rank p < 10 := by
  have := m.zone_le_four p
  unfold rank
  split_ifs <;> omega

theorem distance_nonneg (m : CompressionMap) (p : Int) : 0 ≤ m.distance p :=
  le_min (by omega) (by decide)

theorem Exact.thresholds_chain (hm : m.Exact) :
    m.thresholds 0 ≤ m.thresholds 1 ∧ m.thresholds 1 ≤ m.thresholds 2 ∧
      m.thresholds 2 ≤ m.thresholds 3 :=
  ⟨hm.thresholds_mono 0 (by omega), hm.thresholds_mono 1 (by omega),
    hm.thresholds_mono 2 (by omega)⟩

theorem zoneOf_mono {d' : Int} (hd : d ≤ d') : m.zoneOf d ≤ m.zoneOf d' := by
  unfold zoneOf
  split_ifs <;> omega

theorem zone_bounds (hzone : m.zone p < 4) :
    m.zoneStart (m.zone p) ≤ m.distance p ∧ m.distance p < m.thresholds (m.zone p) := by
  have hd := m.distance_nonneg p
  unfold zone zoneOf at hzone ⊢
  split_ifs at hzone ⊢ <;> simp only [zoneStart] <;> omega

theorem Exact.base_add_slots_le (hm : m.Exact) {z' : Nat} (hlt : z < z') (hz' : z' ≤ 4) :
    m.baseIndices z + m.zoneSlots z ≤ m.baseIndices z' := by
  induction z', hlt using Nat.le_induction with
  | base => exact (hm.base_succ z (by omega)).ge
  | succ k hk ih =>
    rw [hm.base_succ k (by omega)]
    exact (ih (by omega)).trans (Nat.le_add_right _ _)

theorem Exact.base_add_slots_le_total (hm : m.Exact) (hz : z ≤ 4) :
    m.baseIndices z + m.zoneSlots z ≤ m.totalSlots := by
  have htotal := hm.total_eq
  rcases Nat.lt_or_eq_of_le hz with hlt | rfl
  · have := hm.base_add_slots_le hlt le_rfl
    omega
  · rw [hm.slots_four]
    omega

theorem Exact.slotWidth (hm : m.Exact) (hz : z < 4) :
    0 < m.compressions z * m.tickSize ∧ m.compressions z * m.tickSize ≤ i64Max := by
  have hpos := hm.compressions_pos z hz
  have hle := hm.compressions_le z hz
  have htick := hm.tick_pos
  refine ⟨Int.mul_pos (by omega) htick,
    (Int.mul_le_mul_of_nonneg_right ?_ htick.le).trans hm.tick_le⟩
  omega

theorem Exact.localOffset_eq (hm : m.Exact) {half : Nat} (hz : z < 4)
    (hstart : m.zoneStart z ≤ d) (hend : d < m.thresholds z) :
    m.localOffset z half d =
      min ((d - m.zoneStart z) / (m.compressions z * m.tickSize)).toNat (half - 1) := by
  obtain ⟨hpos, hle⟩ := hm.slotWidth hz
  have hquot : (d - m.zoneStart z) / (m.compressions z * m.tickSize) < 4294967296 := by
    have hwidth := hm.zone_width z hz
    exact Int.ediv_lt_of_lt_mul hpos (by omega)
  unfold localOffset
  rw [wrap64_of_nonneg hpos.le hle, Int.tdiv_eq_ediv_of_nonneg (by omega),
    asU32_of_lt (Int.ediv_nonneg (by omega) hpos.le) hquot]

theorem offset_le (m : CompressionMap) (p : Int) : m.offset p ≤ m.half p - 1 :=
  min_le_right _ _

theorem priceToIndex_def (p : Int) : m.priceToIndex p =
      if m.zone p = 4 then (m.baseIndices 4 + (if m.midPrice ≤ p then 0 else 1)) % 4294967296
      else if m.half p = 0 then m.baseIndices (m.zone p)
      else if m.midPrice ≤ p then (m.baseIndices (m.zone p) + m.half p + m.offset p) % 4294967296
      else m.baseIndices (m.zone p) + m.half p - 1 - m.offset p :=
  rfl

theorem Exact.base_add_half_le (hm : m.Exact) (p : Int) :
    m.baseIndices (m.zone p) + 2 * m.half p ≤ m.totalSlots := by
  have hzone := hm.base_add_slots_le_total (m.zone_le_four p)
  unfold half
  omega

theorem Exact.priceToIndex_eq (hm : m.Exact) (p : Int) : m.priceToIndex p =
      if m.zone p = 4 then m.baseIndices 4 + (if m.midPrice ≤ p then 0 else 1)
      else if m.half p = 0 then m.baseIndices (m.zone p)
      else if m.midPrice ≤ p then m.baseIndices (m.zone p) + m.half p + m.offset p
      else m.baseIndices (m.zone p) + m.half p - 1 - m.offset p := by
  have htotal := hm.total_lt
  have hfour := hm.total_eq
  have hhalf := hm.base_add_half_le p
  have hoff := m.offset_le p
  rw [priceToIndex_def]
  split_ifs with h4 hmid h0 hmid
  · exact Nat.mod_eq_of_lt (by omega)
  · exact Nat.mod_eq_of_lt (by omega)
  · rfl
  · exact Nat.mod_eq_of_lt (by omega)
  · rfl

theorem Exact.priceToIndex_lt (hm : m.Exact) (p : Int) : m.priceToIndex p < m.totalSlots := by
  have hfour := hm.total_eq
  have hhalf := hm.base_add_half_le p
  have hoff := m.offset_le p
  rw [hm.priceToIndex_eq]
  split_ifs with h4 hmid h0 hmid
  · omega
  · omega
  · have hz := m.zone_le_four p
    have := hm.base_add_slots_le (show m.zone p < 4 by omega) le_rfl
    omega
  · omega
  · omega

def zoneOfRank (k : Nat) : Nat :=
  if k < 5 then 4 - k else k - 5

theorem Exact.region_subset (hm : m.Exact) (k : Nat) :
    m.baseIndices (zoneOfRank k) ≤ (m.region k).1 ∧
      (m.region k).2 ≤ m.baseIndices (zoneOfRank k) + m.zoneSlots (zoneOfRank k) := by
  have hfour := hm.slots_four
  unfold region zoneOfRank bidRegion askRegion
  by_cases hk : k < 5
  · simp only [hk, if_true]
    split_ifs <;> omega
  · simp only [hk, if_false]
    split_ifs with h4
    · rw [h4]
      omega
    · omega
    · omega

theorem region_rank (p : Int) : m.region (m.rank p) =
      if m.midPrice ≤ p then m.askRegion (m.zone p) else m.bidRegion (m.zone p) := by
  have hz := m.zone_le_four p
  unfold region rank
  by_cases hmid : m.midPrice ≤ p
  · rw [if_pos hmid, if_neg (by omega), if_pos hmid, Nat.add_sub_cancel_left]
  · rw [if_neg hmid, if_pos (by omega), if_neg hmid, Nat.sub_sub_self hz]

theorem Exact.mem_region (hm : m.Exact) (hreg : m.Regular p) :
    (m.region (m.rank p)).1 ≤ m.priceToIndex p ∧ m.priceToIndex p < (m.region (m.rank p)).2 := by
  have hfour := hm.slots_four
  have hoff := m.offset_le p
  rw [hm.priceToIndex_eq, region_rank, askRegion, bidRegion]
  rcases eq_or_ne (m.zone p) 4 with h4 | h4
  · by_cases hmid : m.midPrice ≤ p <;> simp [h4, hmid, hfour]
  · have hslots : 2 ≤ m.zoneSlots (m.zone p) := hreg.resolve_left h4
    have hhalf : m.zoneSlots (m.zone p) / 2 = m.half p := rfl
    have hpos : m.half p ≠ 0 := by omega
    by_cases hmid : m.midPrice ≤ p
    · simp only [h4, hmid, hhalf, hpos, if_true, if_false]
      omega
    · simp only [h4, hmid, hhalf, hpos, if_false]
      omega

theorem regions_disjoint (hz : z = 4 ∨ 2 ≤ m.zoneSlots z) :
    (m.bidRegion z).2 ≤ (m.askRegion z).1 ∨ (m.askRegion z).2 ≤ (m.bidRegion z).1 := by
  rw [bidRegion, askRegion]
  rcases eq_or_ne z 4 with h4 | h4
  · exact .inr (by simp [h4])
  · have hpos : m.zoneSlots z / 2 ≠ 0 := by omega
    exact .inl (by simp [h4, hpos])

theorem zoneOfRank_rank (p : Int) : zoneOfRank (m.rank p) = m.zone p := by
  have hz := m.zone_le_four p
  unfold zoneOfRank rank
  split_ifs <;> omega

/-- **No slot lies in two regions**, if its zone has a slot on each side. -/
theorem Exact.region_unique (hm : m.Exact) {l : Nat} (hk : k < 10) (hl : l < 10)
    (hreg : zoneOfRank k = 4 ∨ 2 ≤ m.zoneSlots (zoneOfRank k))
    (hlo : (m.region k).1 ≤ t) (hhi : t < (m.region k).2)
    (hlo' : (m.region l).1 ≤ t) (hhi' : t < (m.region l).2) : k = l := by
  obtain ⟨_, _⟩ := hm.region_subset k
  obtain ⟨_, _⟩ := hm.region_subset l
  have hz : ∀ {k}, k < 10 → zoneOfRank k ≤ 4 := by
    intro k hk
    unfold zoneOfRank
    split_ifs <;> omega
  -- Two different zones have disjoint slots.
  have hzone : zoneOfRank k = zoneOfRank l := by
    rcases lt_trichotomy (zoneOfRank k) (zoneOfRank l) with hlt | heq | hgt
    · have := hm.base_add_slots_le hlt (hz hl)
      omega
    · exact heq
    · have := hm.base_add_slots_le hgt (hz hk)
      omega
  -- The two halves of one zone are disjoint as well.
  have hdisj := regions_disjoint hreg
  unfold zoneOfRank at hzone hdisj
  unfold region at hlo hhi hlo' hhi'
  by_cases hk5 : k < 5 <;> by_cases hl5 : l < 5 <;>
    simp only [hk5, hl5, if_true, if_false] at hzone hdisj hlo hhi hlo' hhi'
  · omega
  · rw [← hzone] at hlo' hhi'
    omega
  · rw [← hzone] at hlo' hhi'
    omega
  · omega

theorem Exact.eq_rank (hm : m.Exact) (hreg : m.Regular p) (hk : k < 10)
    (hlo : (m.region k).1 ≤ m.priceToIndex p) (hhi : m.priceToIndex p < (m.region k).2) :
    k = m.rank p := by
  obtain ⟨hlo', hhi'⟩ := hm.mem_region hreg
  rw [Regular, ← zoneOfRank_rank] at hreg
  exact (hm.region_unique (rank_lt_ten p) hk hreg hlo' hhi' hlo hhi).symm

theorem distance_mono_ask (hp : m.midPrice ≤ p) (hpq : p ≤ q) : m.distance p ≤ m.distance q := by
  unfold distance
  omega

theorem distance_mono_bid (hpq : p ≤ q) (hq : q < m.midPrice) : m.distance q ≤ m.distance p := by
  unfold distance
  omega

theorem rank_mono (hpq : p ≤ q) : m.rank p ≤ m.rank q := by
  unfold rank
  by_cases hp : m.midPrice ≤ p
  · have hzone : m.zone p ≤ m.zone q := zoneOf_mono (distance_mono_ask hp hpq)
    rw [if_pos hp, if_pos (hp.trans hpq)]
    omega
  · by_cases hq : m.midPrice ≤ q
    · rw [if_neg hp, if_pos hq]
      omega
    · have hzone : m.zone q ≤ m.zone p := zoneOf_mono (distance_mono_bid hpq (by omega))
      rw [if_neg hp, if_neg hq]
      omega

variable (hm : m.Exact)
include hm

theorem Exact.offset_mono (hzone : m.zone p = m.zone q) (hlt : m.zone p < 4)
    (hd : m.distance p ≤ m.distance q) : m.offset p ≤ m.offset q := by
  obtain ⟨hstart, hend⟩ := zone_bounds hlt
  obtain ⟨hstart', hend'⟩ := zone_bounds (p := q) (hzone ▸ hlt)
  unfold offset half
  rw [← hzone] at hstart' hend' ⊢
  rw [hm.localOffset_eq hlt hstart hend, hm.localOffset_eq hlt hstart' hend']
  have hquot := Int.ediv_le_ediv (hm.slotWidth hlt).1
    (Int.sub_le_sub_right hd (m.zoneStart (m.zone p)))
  omega

theorem Exact.priceToIndex_mono (hrank : m.rank p = m.rank q) (hpq : p ≤ q) :
    m.priceToIndex p ≤ m.priceToIndex q := by
  have hz := m.zone_le_four p
  have hz' := m.zone_le_four q
  have hside : (m.midPrice ≤ p ↔ m.midPrice ≤ q) ∧ m.zone p = m.zone q := by
    unfold rank at hrank
    split_ifs at hrank <;> omega
  have hhalf : m.half p = m.half q := by rw [half, half, hside.2]
  rw [hm.priceToIndex_eq, hm.priceToIndex_eq, ← hside.2, ← hhalf]
  by_cases h4 : m.zone p = 4
  · simp only [h4, if_true, hside.1]
    exact le_rfl
  have hlt : m.zone p < 4 := by omega
  by_cases h0 : m.half p = 0
  · simp [h4, h0]
  by_cases hp : m.midPrice ≤ p
  · have := hm.offset_mono hside.2 hlt (distance_mono_ask hp hpq)
    simp only [h4, h0, hp, hside.1.1 hp, if_true, if_false]
    omega
  · have hq : ¬ m.midPrice ≤ q := fun h => hp (hside.1.2 h)
    have := hm.offset_mono hside.2.symm (hside.2 ▸ hlt) (distance_mono_bid hpq (by omega))
    simp only [h4, h0, hp, hq, if_false]
    omega

theorem Exact.zone_eq_zero (hp : m.Regular p)
    (hlt : m.priceToIndex p < m.zoneSlots 0) : m.zone p = 0 := by
  have hz := m.zone_le_four p
  by_contra hne
  have hbase := hm.base_add_slots_le (show 0 < m.zone p by omega) hz
  have hsub := (hm.region_subset (m.rank p)).1
  have hmem := (hm.mem_region hp).1
  rw [zoneOfRank_rank] at hsub
  omega

theorem Exact.distance_zone_zero (hp : m.zone p = 0) :
    m.distance p = ((p - m.midPrice).natAbs : Int) := by
  have hend := (zone_bounds (m := m) (p := p) (by omega)).2
  obtain ⟨_, _, _⟩ := hm.thresholds_chain
  have hmax := hm.thresholds_le
  rw [hp] at hend
  unfold distance at hend ⊢
  unfold i64Max at *
  omega

theorem Exact.offset_zone_zero (hp : m.zone p = 0) :
    (m.offset p : Int) = m.distance p / m.tickSize := by
  have htick := hm.tick_pos
  obtain ⟨hstart, hend⟩ := zone_bounds (m := m) (p := p) (by omega)
  have hwidth := hm.zone0_width
  have hnonneg : 0 ≤ m.distance p / m.tickSize :=
    Int.ediv_nonneg (m.distance_nonneg p) htick.le
  rw [hp] at hstart hend
  have hquot : m.distance p / m.tickSize < (m.zoneSlots 0 / 2 : Nat) :=
    Int.ediv_lt_of_lt_mul htick (by omega)
  have hraw : ((m.compressions 0 : Nat) : Int) * m.tickSize = m.tickSize := by
    rw [hm.compressions_zero]
    exact Int.one_mul _
  unfold offset half
  rw [hp, hm.localOffset_eq (by omega) hstart hend, hraw]
  change ((min ((m.distance p - 0) / m.tickSize).toNat _ : Nat) : Int) = _
  rw [Int.sub_zero]
  omega

theorem Exact.priceToIndex_zone_zero (hp : m.zone p = 0) (hslots : 2 ≤ m.zoneSlots 0) :
    m.priceToIndex p =
      if m.midPrice ≤ p then m.zoneSlots 0 / 2 + m.offset p
      else m.zoneSlots 0 / 2 - 1 - m.offset p := by
  have hhalf : m.half p = m.zoneSlots 0 / 2 := by rw [half, hp]
  rw [hm.priceToIndex_eq, hp, hhalf, hm.base_zero, if_neg (by decide), if_neg (by omega),
    Nat.zero_add]

/-- **Zone 0 holds one price per slot.**  Two tick-aligned regular prices that share a slot of
zone 0 are equal. -/
theorem Exact.eq_of_priceToIndex_eq (hp : m.Regular p) (hq : m.Regular q)
    (hpt : m.tickSize ∣ p) (hqt : m.tickSize ∣ q) (heq : m.priceToIndex p = m.priceToIndex q)
    (hlt : m.priceToIndex p < m.zoneSlots 0) : p = q := by
  have htick := hm.tick_pos
  have hrank : m.rank p = m.rank q :=
    hm.eq_rank hq (rank_lt_ten p) (heq ▸ (hm.mem_region hp).1) (heq ▸ (hm.mem_region hp).2)
  have hpz := hm.zone_eq_zero hp hlt
  have hqz := hm.zone_eq_zero hq (heq ▸ hlt)
  have hslots : 2 ≤ m.zoneSlots 0 := by
    have := hp.resolve_left (by omega)
    rwa [hpz] at this
  have hle := m.offset_le p
  have hle' := m.offset_le q
  rw [half, hpz] at hle
  rw [half, hqz] at hle'
  rw [hm.priceToIndex_zone_zero hpz hslots, hm.priceToIndex_zone_zero hqz hslots] at heq
  have hpo := hm.offset_zone_zero hpz
  have hqo := hm.offset_zone_zero hqz
  rw [hm.distance_zone_zero hpz] at hpo
  rw [hm.distance_zone_zero hqz] at hqo
  unfold rank at hrank
  have hquot : ∀ c x : Int, (m.tickSize * c + x) / m.tickSize = c + x / m.tickSize := by
    intro c x
    rw [Int.add_comm, Int.add_mul_ediv_left _ _ htick.ne', Int.add_comm]
  obtain ⟨a, rfl⟩ := hpt
  obtain ⟨b, rfl⟩ := hqt
  have hab : a = b := by
    by_cases hmid : m.midPrice ≤ m.tickSize * a
    · rw [if_pos hmid] at heq hrank
      have hmid' : m.midPrice ≤ m.tickSize * b := by
        by_contra hcon
        rw [if_neg hcon] at hrank
        omega
      rw [if_pos hmid'] at heq
      rw [Int.natAbs_of_nonneg (by omega), Int.sub_eq_add_neg, hquot] at hpo hqo
      omega
    · rw [if_neg hmid] at heq hrank
      have hmid' : ¬ m.midPrice ≤ m.tickSize * b := by
        intro hcon
        rw [if_pos hcon] at hrank
        omega
      rw [if_neg hmid'] at heq
      have hneg : ∀ c : Int, ¬ m.midPrice ≤ m.tickSize * c →
          ((m.tickSize * c - m.midPrice).natAbs : Int) = m.tickSize * (-c) + m.midPrice := by
        intro c hc
        rw [Int.mul_neg]
        omega
      rw [hneg a hmid, hquot] at hpo
      rw [hneg b hmid', hquot] at hqo
      omega
  rw [hab]

end Geometry

def slotsOf (r : Nat × Nat) : List Nat :=
  List.range' r.1 (r.2 - r.1)

/-- The slots in the order in which the regions of `build_price_asc` list them. -/
def slotsAsc : List Nat :=
  m.buildPriceAsc.flatMap slotsOf

variable {m} {p q : Int}

theorem mem_slotsOf {r : Nat × Nat} : t ∈ slotsOf r ↔ r.1 ≤ t ∧ t < r.2 := by
  rw [slotsOf, mem_range'_1]
  omega

theorem Exact.mem_slotsAsc (hm : m.Exact) (hp : m.Regular p) : m.priceToIndex p ∈ m.slotsAsc := by
  have hmem := hm.mem_region hp
  rw [slotsAsc, mem_flatMap]
  refine ⟨m.region (m.rank p), mem_filter.2 ⟨?_, ?_⟩, mem_slotsOf.2 hmem⟩
  · exact mem_map_of_mem (mem_range.2 (rank_lt_ten p))
  · exact decide_eq_true (by omega)

/-- **The regions list the slots in price order.**  Of two slots of `slotsAsc`, every regular price
of the earlier one is below every regular price of the later one. -/
theorem Exact.slotsAsc_sorted (hm : m.Exact) :
    m.slotsAsc.Pairwise fun s t => ∀ p q, m.Regular p → m.Regular q →
      m.priceToIndex p = s → m.priceToIndex q = t → p < q := by
  rw [slotsAsc, buildPriceAsc_eq, pairwise_flatMap]
  constructor
  · intro r hr
    obtain ⟨k, hk, rfl⟩ := mem_map.1 (mem_filter.1 hr).1
    rw [mem_range] at hk
    have hsorted : (slotsOf (m.region k)).Pairwise (· < ·) := pairwise_lt_range'
    refine (pairwise_iff_forall_sublist.2 ?_)
    intro s t hst p q hp hq hs ht
    have hlt : s < t := pairwise_iff_forall_sublist.1 hsorted hst
    have hsMem := mem_slotsOf.1 (hst.subset mem_cons_self)
    have htMem := mem_slotsOf.1 (hst.subset (mem_cons_of_mem _ mem_cons_self))
    subst hs ht
    have hrank : m.rank q = m.rank p := (hm.eq_rank hq hk htMem.1 htMem.2).symm.trans
      (hm.eq_rank hp hk hsMem.1 hsMem.2)
    by_contra hge
    have := hm.priceToIndex_mono hrank (Int.not_lt.1 hge)
    omega
  · refine (List.Pairwise.filter _ ?_)
    rw [pairwise_map]
    refine pairwise_lt_range.imp_of_mem ?_
    intro k l hk hl hkl s hs t ht p q hp hq hps hqt
    rw [mem_range] at hk hl
    rw [mem_slotsOf] at hs ht
    subst hps hqt
    have hrank : m.rank p < m.rank q := by
      rw [← hm.eq_rank hp hk hs.1 hs.2, ← hm.eq_rank hq hl ht.1 ht.2]
      exact hkl
    by_contra hge
    have := rank_mono (m := m) (Int.not_lt.1 hge)
    omega

theorem Exact.regular_of_slots (hm : m.Exact) (h : ∀ z, 1 ≤ z → z ≤ 3 → 2 ≤ m.zoneSlots z)
    (p : Int) : m.Regular p := by
  have hz := m.zone_le_four p
  unfold Regular
  rcases Nat.eq_zero_or_pos (m.zone p) with hzero | hpos
  · have hend := (zone_bounds (m := m) (p := p) (by omega)).2
    have hnonneg := m.distance_nonneg p
    have hwidth := hm.zone0_width
    rw [hzero] at hend ⊢
    -- A non-empty zone 0 is wider than nothing, so it has a slot on each side.
    by_contra hcon
    have hhalf : m.zoneSlots 0 / 2 = 0 := by omega
    rw [hhalf] at hwidth
    omega
  · by_cases h4 : m.zone p = 4
    · exact .inl h4
    · exact .inr (h _ hpos (by omega))

end Rsx.Book.CompressionMap
