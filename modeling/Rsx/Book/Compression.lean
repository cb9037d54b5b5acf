import Rsx.Book.Types

/-!
# The compression map

`compression.rs`: a price is mapped to a slot index by its raw distance from the mid price.  Zones
0 to 3 hold 1, 10, 100 and 1000 ticks per slot, each split into a bid half below and an ask half
above; zone 4 is one catch-all slot per side.
-/

namespace Rsx.Book

/-- Zone boundaries of a price-to-index mapping.  The fixed arrays of the source are functions of
the zone. -/
structure CompressionMap where
  midPrice : Int
  thresholds : Nat → Int
  compressions : Nat → Nat
  baseIndices : Nat → Nat
  zoneSlots : Nat → Nat
  tickSize : Int

namespace CompressionMap

def percentOf (midPrice p : Int) : Int :=
  if i64Min ≤ midPrice * p ∧ midPrice * p ≤ i64Max then
    (midPrice * p).tdiv 100
  else
    i64Max / 100

/-- Slots of a compressed zone, before the cast to `u32`: the raw width of both sides over the raw
width of one slot. -/
def compressedSlots (inner outer ticks tickSize : Int) : Int :=
  max ((wrap64 ((outer - inner) * 2)).tdiv (wrap64 (ticks * tickSize))) 0

/-- Slots of zone 0 before the cast to `u32`: one tick per slot, rounded up. -/
def zone0Slots (inner tickSize : Int) : Int :=
  max (wrap64 ((wrap64 (max inner 0 + tickSize - 1)).tdiv tickSize * 2)) 0

/-- Number of slots per zone as an `i64`, before the cast to `u32`. -/
def rawSlots (midPrice tickSize : Int) : Nat → Int
  | 0 => zone0Slots (percentOf midPrice 5) tickSize
  | 1 => compressedSlots (percentOf midPrice 5) (percentOf midPrice 15) 10 tickSize
  | 2 => compressedSlots (percentOf midPrice 15) (percentOf midPrice 30) 100 tickSize
  | 3 => compressedSlots (percentOf midPrice 30) (percentOf midPrice 50) 1000 tickSize
  | _ => 2

/-- Sum of the slots of the zones below `z`, in `u32` arithmetic. -/
def baseOf (slots : Nat → Nat) : Nat → Nat
  | 0 => 0
  | z + 1 => (baseOf slots z + slots z) % 4294967296

def new (midPrice tickSize : Int) : CompressionMap :=
  let t := max tickSize 1
  let slots := fun z => asU32 (rawSlots midPrice t z)
  { midPrice := midPrice
    thresholds := fun
      | 0 => percentOf midPrice 5
      | 1 => percentOf midPrice 15
      | 2 => percentOf midPrice 30
      | _ => percentOf midPrice 50
    compressions := fun
      | 0 => 1
      | 1 => 10
      | 2 => 100
      | 3 => 1000
      | _ => 1
    baseIndices := baseOf slots
    zoneSlots := slots
    tickSize := t }

variable (m : CompressionMap)

def distance (price : Int) : Int :=
  min ((price - m.midPrice).natAbs : Int) i64Max

/-- The zone of a raw distance, by bisection over the thresholds. -/
def zoneOf (distance : Int) : Nat :=
  if distance < m.thresholds 1 then
    if distance < m.thresholds 0 then 0 else 1
  else if distance < m.thresholds 2 then 2
  else if distance < m.thresholds 3 then 3
  else 4

def zoneStart : Nat → Int
  | 0 => 0
  | z + 1 => m.thresholds z

/-- Offset of a distance inside its zone, counted from the mid price outward and clamped to the
half the zone has. -/
def localOffset (zone half : Nat) (distance : Int) : Nat :=
  min (asU32 ((distance - m.zoneStart zone).tdiv (wrap64 (m.compressions zone * m.tickSize))))
    (half - 1)

def priceToIndex (price : Int) : Nat :=
  let distance := m.distance price
  let zone := m.zoneOf distance
  let half := m.zoneSlots zone / 2
  if zone = 4 then
    (m.baseIndices 4 + (if m.midPrice ≤ price then 0 else 1)) % 4294967296
  else if half = 0 then
    m.baseIndices zone
  else if m.midPrice ≤ price then
    (m.baseIndices zone + half + m.localOffset zone half distance) % 4294967296
  else
    m.baseIndices zone + half - 1 - m.localOffset zone half distance

def totalSlots : Nat :=
  baseOf m.zoneSlots 5

def bidRegion (z : Nat) : Nat × Nat :=
  let base := m.baseIndices z
  let slots := m.zoneSlots z
  if z = 4 then (base + 1, base + slots)
  else if slots / 2 = 0 then (base, base + slots)
  else (base, base + slots / 2)

def askRegion (z : Nat) : Nat × Nat :=
  let base := m.baseIndices z
  let slots := m.zoneSlots z
  if z = 4 then (base, base + 1)
  else if slots / 2 = 0 then (base, base + slots)
  else (base + slots / 2, base + slots)

/-- `build_price_asc`: the slot ranges in ascending order of price, bids from the outermost zone
inward, then asks outward. -/
def buildPriceAsc : List (Nat × Nat) :=
  ([4, 3, 2, 1, 0].map m.bidRegion ++ [0, 1, 2, 3, 4].map m.askRegion).filter
    fun r => r.1 < r.2

end CompressionMap

end Rsx.Book
