import Rsx.Book.Compression
import Rsx.Book.Occupancy
import Rsx.Book.Slab
import Rsx.Book.User

/-!
# The order book

`book.rs`.  Fields that the source keeps once per side (`best_bid_tick` and `best_ask_tick`,
`bid_occ` and `ask_occ`) are functions of the side; the functions it writes out twice are one
definition with the side as a parameter.
-/

namespace Rsx.Book

open Function

inductive BookState
  | normal
  | migrating
  deriving DecidableEq, Repr

/-- `activeLevels` is read below `compression.totalSlots`, the length of the source's vector, and
`oldLevels` below `oldCompression`'s. -/
structure Orderbook where
  activeLevels : Nat → PriceLevel
  orders : Slab OrderSlot
  bestTick : Side → Nat
  bestPx : Side → Int
  compression : CompressionMap
  occ : Side → Occupancy
  priceAsc : List (Nat × Nat)
  state : BookState
  config : BookConfig
  sequence : Nat
  eventBuf : List Event
  users : UserRegistry
  oldLevels : Option (Nat → PriceLevel)
  oldCompression : Option CompressionMap

namespace Orderbook

def new (config : BookConfig) (capacity : Nat) (midPrice : Int) : Orderbook :=
  let compression := CompressionMap.new midPrice config.tickSize
  { activeLevels := fun _ => {}
    orders := Slab.new capacity
    bestTick := fun _ => NONE
    bestPx := fun _ => 0
    compression := compression
    occ := fun _ => Occupancy.new compression.totalSlots
    priceAsc := compression.buildPriceAsc
    state := .normal
    config := config
    sequence := 0
    eventBuf := []
    users := {}
    oldLevels := none
    oldCompression := none }

variable (b : Orderbook)

def emit (event : Event) : Option Orderbook :=
  if b.eventBuf.length < maxEvents then some { b with eventBuf := b.eventBuf ++ [event] } else none

def maintainUsers (nowNs : Nat) (replayMode : Bool) : Orderbook :=
  { b with users := (b.users.maintainOne nowNs replayMode).2 }

def updateConfig (config : BookConfig) : Orderbook :=
  { b with config := config }

def setLevel (tick : Nat) (level : PriceLevel) : Orderbook :=
  { b with activeLevels := update b.activeLevels tick level }

def modifySlot (handle : Nat) (f : OrderSlot → OrderSlot) : Orderbook :=
  { b with orders := b.orders.modify handle f }

/-- Link `handle` at the tail of the level at `tick` and count it there, as `insert_resting` and
`migrate_single_level` do. -/
def linkTail (tick handle : Nat) (side : Side) (qty : Int) : Orderbook :=
  let level := b.activeLevels tick
  let orders :=
    if level.orderCount = 0 then
      b.orders.modify handle fun slot => { slot with next := NONE, prev := NONE }
    else
      (b.orders.modify level.tail fun slot => { slot with next := handle }).modify handle
        fun slot => { slot with next := NONE, prev := level.tail }
  { b with
    orders := orders
    activeLevels := update b.activeLevels tick
      { head := if level.orderCount = 0 then handle else level.head
        tail := handle
        totalQty := wrap64 (level.totalQty + qty)
        orderCount := level.orderCount + 1
        count := update level.count side (level.count side + 1) }
    occ :=
      if level.count side = 0 then update b.occ side ((b.occ side).set tick) else b.occ }

/-- Track a price that joined a side at `tick`.  Sawtooth indices are not price-orderable, so the
comparison is by raw price. -/
def improveBest (side : Side) (tick : Nat) (price : Int) : Orderbook :=
  if b.bestTick side = NONE ∨ side.improves price (b.bestPx side) then
    { b with
      bestTick := update b.bestTick side tick
      bestPx := update b.bestPx side price }
  else
    b

/-- `insert_resting`; `none` when the slab is exhausted or the index is out of bounds. -/
def insertResting (price qty : Int) (side : Side) (tif : TimeInForce) (userId : Nat)
    (reduceOnly : Bool) (timestampNs orderIdHi orderIdLo : Nat) : Option (Nat × Orderbook) := do
  let tick := b.compression.priceToIndex price
  let (handle, orders) ← b.orders.alloc
  let slot : OrderSlot :=
    { price := price, remainingQty := qty, originalQty := qty, side := side, tif := tif
      active := true, reduceOnly := reduceOnly, userId := userId, tickIndex := tick
      timestampNs := timestampNs, orderIdHi := orderIdHi, orderIdLo := orderIdLo
      sequence := (b.sequence + 1) % 4294967296 }
  if tick < b.compression.totalSlots then
    let b := { b with orders := orders.modify handle fun _ => slot, sequence := b.sequence + 1 }
    let b := (b.linkTail tick handle side qty).improveBest side tick price
    some (handle, { b with users := b.users.addOrder userId })
  else
    none

/-- `unlink_order`: take an order out of its level's list; its slab slot stays allocated. -/
def unlinkOrder (handle : Nat) : Orderbook :=
  let slot := b.orders.get handle
  let tick := slot.tickIndex
  let level := b.activeLevels tick
  let orders :=
    if slot.prev ≠ NONE then
      b.orders.modify slot.prev fun s => { s with next := slot.next }
    else b.orders
  let orders :=
    if slot.next ≠ NONE then
      orders.modify slot.next fun s => { s with prev := slot.prev }
    else orders
  let left := level.count slot.side - 1
  { b with
    orders := orders
    activeLevels := update b.activeLevels tick
      { head := if slot.prev ≠ NONE then level.head else slot.next
        tail := if slot.next ≠ NONE then level.tail else slot.prev
        totalQty := sat64 (level.totalQty - slot.remainingQty)
        orderCount := level.orderCount - 1
        count := update level.count slot.side left }
    occ :=
      if left = 0 then update b.occ slot.side ((b.occ slot.side).clear tick) else b.occ }

def levelOrders (tick : Nat) : List OrderSlot :=
  (b.orders.walk (b.activeLevels tick).head).map b.orders.get

def topStep (side : Side) (top : Int × Int) (order : OrderSlot) : Int × Int :=
  if order.side = side then
    if side.improves order.price top.1 then (order.price, order.remainingQty)
    else if order.price = top.1 then (top.1, wrap64 (top.2 + order.remainingQty))
    else top
  else
    top

/-- `bid_top_at` and `ask_top_at`: the best resting price of a side at `tick` and the aggregate
quantity at that price.  Zone 0 is direct; a compressed slot is walked. -/
def topAt (side : Side) (tick : Nat) : Int × Int :=
  if tick = NONE then (0, 0)
  else
    let level := b.activeLevels tick
    if level.count side = 0 then (0, 0)
    else if tick < b.compression.zoneSlots 0 then
      ((b.orders.get level.head).price, level.totalQty)
    else
      (b.levelOrders tick).foldl (topStep side) (side.worstPx, 0)

def bidTopAt (tick : Nat) : Int × Int :=
  b.topAt .buy tick

def askTopAt (tick : Nat) : Int × Int :=
  b.topAt .sell tick

/-- `scan_next_bid`: walk the regions in descending price and take the highest bit of each. -/
def scanNextBid : Nat :=
  (b.priceAsc.reverse.findSome? fun r => (b.occ .buy).findLastIn r.1 r.2).getD NONE

/-- `scan_next_ask`: walk the regions in ascending price and take the lowest bit of each. -/
def scanNextAsk : Nat :=
  (b.priceAsc.findSome? fun r => (b.occ .sell).findFirstIn r.1 r.2).getD NONE

def scanNext : Side → Nat
  | .buy => b.scanNextBid
  | .sell => b.scanNextAsk

def refreshBest (side : Side) : Orderbook :=
  let tick := b.scanNext side
  { b with
    bestTick := update b.bestTick side tick
    bestPx := update b.bestPx side (b.topAt side tick).1 }

def currentBbo : Bbo :=
  { bidPx := (b.bidTopAt (b.bestTick .buy)).1
    bidQty := (b.bidTopAt (b.bestTick .buy)).2
    askPx := (b.askTopAt (b.bestTick .sell)).1
    askQty := (b.askTopAt (b.bestTick .sell)).2 }

def cancelOrder (handle : Nat) : Bool × Orderbook :=
  let slot := b.orders.get handle
  if ¬ slot.active then (false, b)
  else
    let b := b.unlinkOrder handle
    let b := if slot.tickIndex = b.bestTick slot.side then b.refreshBest slot.side else b
    let orders := (b.orders.modify handle fun s => { s with active := false }).free handle
    (true, { b with orders := orders, users := b.users.removeOrder slot.userId })

def orderMatches (handle userId orderIdHi orderIdLo : Nat) : Bool :=
  let slot := b.orders.get handle
  handle < b.orders.capacity ∧ slot.active ∧ slot.userId = userId ∧
    slot.orderIdHi = orderIdHi ∧ slot.orderIdLo = orderIdLo

def cancelOrderChecked (handle userId orderIdHi orderIdLo : Nat) : Bool × Orderbook :=
  if b.orderMatches handle userId orderIdHi orderIdLo then b.cancelOrder handle else (false, b)

def modifyOrderQtyDown (handle : Nat) (newQty : Int) (userId orderIdHi orderIdLo : Nat) :
    Bool × Orderbook :=
  if ¬ b.orderMatches handle userId orderIdHi orderIdLo then (false, b)
  else
    let slot := b.orders.get handle
    if newQty = 0 then b.cancelOrder handle
    else if slot.remainingQty ≤ newQty then (false, b)
    else
      let level := b.activeLevels slot.tickIndex
      let diff := wrap64 (slot.remainingQty - newQty)
      let b := b.modifySlot handle fun slot => { slot with remainingQty := newQty }
      (true, b.setLevel slot.tickIndex { level with totalQty := sat64 (level.totalQty - diff) })

end Orderbook

end Rsx.Book
