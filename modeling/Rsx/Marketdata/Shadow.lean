import Rsx.Book.Resting
import Rsx.Matching.Engine

/-!
# The shadow book

`shadow.rs` of `rsx-marketdata`: an order book that is rebuilt from the records of the matching
engine, and the best prices, levels and trades that are published from it.  -/

namespace Rsx.Marketdata

open Function Book

structure L2Level where
  price : Int
  qty : Int
  count : Nat
  deriving DecidableEq, Repr

structure L2Snapshot where
  symbolId : Nat
  bids : List L2Level
  asks : List L2Level
  timestampNs : Nat
  seq : Nat
  deriving DecidableEq, Repr

structure L2Delta where
  symbolId : Nat
  side : Side
  price : Int
  qty : Int
  count : Nat
  timestampNs : Nat
  seq : Nat
  deriving DecidableEq, Repr

structure BboUpdate where
  symbolId : Nat
  bidPx : Int
  bidQty : Int
  bidCount : Nat
  askPx : Int
  askQty : Int
  askCount : Nat
  timestampNs : Nat
  seq : Nat
  deriving DecidableEq, Repr

structure TradeEvent where
  symbolId : Nat
  price : Int
  qty : Int
  takerSide : Side
  timestampNs : Nat
  seq : Nat
  deriving DecidableEq, Repr

abbrev OrderId := Nat × Nat

structure ShadowBook where
  book : Orderbook
  symbolId : Nat
  seq : Nat := 0
  timestampNs : Nat := 0
  orderMap : OrderId → Option Nat := fun _ => none

namespace ShadowBook

def new (symbolId : Nat) (config : BookConfig) (capacity : Nat) (midPrice : Int) : ShadowBook where
  book := Orderbook.new config capacity midPrice
  symbolId := symbolId

variable (sh : ShadowBook)

/-- `apply_insert_by_id`; `none` when the slab is exhausted or the index is out of bounds. -/
def applyInsertById (price qty : Int) (side : Side) (userId timestampNs : Nat) (id : OrderId) :
    Option ShadowBook := do
  let (handle, book) ← sh.book.insertResting price qty side .gtc userId false timestampNs id.1 id.2
  some { sh with
    book := book, seq := sh.seq + 1, timestampNs := timestampNs
    orderMap := update sh.orderMap id (some handle) }

/-- `apply_cancel_by_order_id`, with the side and the price that changed. -/
def applyCancelByOrderId (id : OrderId) (timestampNs : Nat) : ShadowBook × Option (Side × Int) :=
  match sh.orderMap id with
  | none => (sh, none)
  | some handle =>
    let slot := sh.book.orders.get handle
    ({ sh with
      book := (sh.book.cancelOrderChecked handle slot.userId id.1 id.2).2
      seq := sh.seq + 1, timestampNs := timestampNs
      orderMap := update sh.orderMap id none }, some (slot.side, slot.price))

def applyFillByOrderId (id : OrderId) (qty : Int) (timestampNs : Nat) :
    ShadowBook × Option (Side × Int) :=
  match sh.orderMap id with
  | none => (sh, none)
  | some handle =>
    let slot := sh.book.orders.get handle
    let newQty := wrap64 (slot.remainingQty - qty)
    let sh := { sh with seq := sh.seq + 1, timestampNs := timestampNs }
    let sh :=
      if newQty ≤ 0 then
        { sh with
          book := (sh.book.cancelOrderChecked handle slot.userId id.1 id.2).2
          orderMap := update sh.orderMap id none }
      else
        { sh with
          book := (sh.book.modifyOrderQtyDown handle newQty slot.userId id.1 id.2).2 }
    (sh, some (slot.side, slot.price))

/-- `maybe_recenter`, the same as that of the matching engine. -/
def maybeRecenter : Option ShadowBook :=
  (Matching.maybeRecenter sh.book).map fun book => { sh with book := book }

/-- One order of the walk in `side_levels`; the map from prices to levels is a list of levels. -/
def addOrder (levels : List L2Level) (order : OrderSlot) : List L2Level :=
  if levels.any fun level => level.price = order.price then
    levels.map fun level =>
      if level.price = order.price then
        { level with qty := wrap64 (level.qty + order.remainingQty), count := level.count + 1 }
      else level
  else
    levels ++ [{ price := order.price, qty := wrap64 (0 + order.remainingQty), count := 1 }]

def sideLevels (side : Side) : List L2Level :=
  (List.range sh.book.compression.totalSlots).foldl (fun levels tick =>
    if (sh.book.activeLevels tick).count side = 0 then levels
    else
      (sh.book.levelOrders tick).foldl (fun levels order =>
        if order.side = side then addOrder levels order else levels) levels) []

/-- `collect_levels_bid` and `collect_levels_ask`: by descending and by ascending price. -/
def collectLevels (side : Side) (depth : Nat) : List L2Level :=
  ((sh.sideLevels side).insertionSort fun level level' =>
    side.key level.price ≤ side.key level'.price).take depth

def deriveL2Snapshot (depth : Nat) : L2Snapshot where
  symbolId := sh.symbolId
  bids := sh.collectLevels .buy depth
  asks := sh.collectLevels .sell depth
  timestampNs := sh.timestampNs
  seq := sh.seq

/-- `level_at`; `none` is an index out of bounds. -/
def levelAt (tick : Nat) (side : Side) (price : Int) : Option L2Level :=
  if tick = NONE then some { price := price, qty := 0, count := 0 }
  else if tick < sh.book.compression.totalSlots then
    some ((sh.book.levelOrders tick).foldl (fun level order =>
      if order.side = side ∧ order.price = price then
        { level with qty := wrap64 (level.qty + order.remainingQty), count := level.count + 1 }
      else level) { price := price, qty := 0, count := 0 })
  else none

def deriveL2Delta (side : Side) (price : Int) : Option L2Delta := do
  let level ← sh.levelAt (sh.book.compression.priceToIndex price) side price
  some
    { symbolId := sh.symbolId, side := side, price := price, qty := level.qty, count := level.count
      timestampNs := sh.timestampNs, seq := sh.seq }

/-- `derive_bbo`; the outer `none` is an index out of bounds. -/
def deriveBbo : Option (Option BboUpdate) :=
  if sh.book.bestTick .buy = NONE ∧ sh.book.bestTick .sell = NONE then some none
  else do
    let bbo := sh.book.currentBbo
    let bid ← sh.levelAt (sh.book.bestTick .buy) .buy bbo.bidPx
    let ask ← sh.levelAt (sh.book.bestTick .sell) .sell bbo.askPx
    some (some
      { symbolId := sh.symbolId
        bidPx := bbo.bidPx, bidQty := bbo.bidQty, bidCount := bid.count
        askPx := bbo.askPx, askQty := bbo.askQty, askCount := ask.count
        timestampNs := sh.timestampNs, seq := sh.seq })

def makeTrade (price qty : Int) (takerSide : Side) (timestampNs : Nat) : TradeEvent where
  symbolId := sh.symbolId
  price := price
  qty := qty
  takerSide := takerSide
  timestampNs := timestampNs
  seq := sh.seq

/-- The record of an event in the shadow book, as `apply_insert`, `apply_cancel` and `apply_fill` do
it, with the side and the price that changed. -/
def applyRecord : Matching.Record → Option (ShadowBook × Option (Side × Int))
  | .orderInserted tsNs userId orderIdHi orderIdLo price qty side _ _ => do
      let sh ← sh.applyInsertById price qty side userId tsNs (orderIdHi, orderIdLo)
      let sh ← sh.maybeRecenter
      some (sh, some (side, price))
  | .orderCancelled tsNs _ orderIdHi orderIdLo _ _ _ =>
    some (sh.applyCancelByOrderId (orderIdHi, orderIdLo) tsNs)
  | .fill rec =>
    some (sh.applyFillByOrderId (rec.makerOrderIdHi, rec.makerOrderIdLo) rec.qty rec.tsNs)
  | _ => some (sh, none)

end ShadowBook

end Rsx.Marketdata
