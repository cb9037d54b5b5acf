import Rsx.Book.Orderbook

/-!
# Matching

`matching.rs`.  Loops over linked lists carry fuel; running out of it is `none`, like a panic, so a
result `some _` also says that the loop ended.
-/

namespace Rsx.Book

def isCrossing (makerSide : Side) (makerPrice : Int) (takerSide : Side) (limit : Int) : Bool :=
  makerSide ≠ takerSide && takerSide.within makerPrice limit

namespace Orderbook

variable (b : Orderbook)

def isBudgetSpent : Bool :=
  2 * maxMakersPerOrder ≤ b.eventBuf.length

def bestCrosses (order : IncomingOrder) : Bool :=
  b.bestTick order.side.opposite ≠ NONE &&
    order.side.within (b.bestPx order.side.opposite) order.price

/-- `is_match_limited`: the maker cap, not the book, stopped the match. -/
def isMatchLimited (order : IncomingOrder) : Bool :=
  b.isBudgetSpent && b.bestCrosses order

/-- The body of the loop in `fill_level` for a crossing maker: fill it, and take it out of the book
when nothing of it remains. -/
def fillMaker (tick cursor : Nat) (aggressor : IncomingOrder) :
    Option (Orderbook × IncomingOrder) := do
  let maker := b.orders.get cursor
  let fillQty := min aggressor.remainingQty maker.remainingQty
  let makerRemaining := maker.remainingQty - fillQty
  let level := b.activeLevels tick
  let b := b.modifySlot cursor fun slot => { slot with remainingQty := makerRemaining }
  let b := b.setLevel tick { level with totalQty := sat64 (level.totalQty - fillQty) }
  let b ← b.emit (.fill cursor maker.tif maker.reduceOnly maker.userId aggressor.userId maker.price
    fillQty aggressor.side maker.orderIdHi maker.orderIdLo aggressor.orderIdHi aggressor.orderIdLo
    aggressor.timestampNs)
  let b :=
    { b with users := b.users.applyFill aggressor.userId maker.userId aggressor.side fillQty }
  let aggressor := { aggressor with remainingQty := aggressor.remainingQty - fillQty }
  if makerRemaining = 0 then
    let b ← (b.unlinkOrder cursor).emit (.orderDone cursor maker.tif maker.reduceOnly maker.userId
      .filled maker.originalQty 0 maker.orderIdHi maker.orderIdLo)
    let orders := (b.orders.modify cursor fun slot => { slot with active := false }).free cursor
    some ({ b with orders := orders, users := b.users.removeOrder maker.userId }, aggressor)
  else
    some (b, aggressor)

def fillLevelLoop : Nat → Orderbook → Nat → IncomingOrder → Int → Nat →
    Option (Orderbook × IncomingOrder)
  | 0, _, _, _, _, _ => none
  | fuel + 1, b, tick, aggressor, limit, cursor =>
    if cursor ≠ NONE ∧ 0 < aggressor.remainingQty ∧ ¬ b.isBudgetSpent then
      let maker := b.orders.get cursor
      if isCrossing maker.side maker.price aggressor.side limit then do
        let (b, aggressor) ← b.fillMaker tick cursor aggressor
        fillLevelLoop fuel b tick aggressor limit maker.next
      else
        fillLevelLoop fuel b tick aggressor limit maker.next
    else
      some (b, aggressor)

/-- `fill_level`: fill every opposite-side maker of a slot priced within `limit`, in list order. -/
def fillLevel (tick : Nat) (aggressor : IncomingOrder) (limit : Int) :
    Option (Orderbook × IncomingOrder) :=
  fillLevelLoop (b.orders.capacity + 1) b tick aggressor limit (b.activeLevels tick).head

structure Crossing where
  bestPrice : Int
  qty : Int
  makers : Nat

def crossingStep (taker : IncomingOrder) (crossing : Crossing) (maker : OrderSlot) : Crossing :=
  if isCrossing maker.side maker.price taker.side taker.price then
    { bestPrice :=
        match taker.side with
        | .buy => min crossing.bestPrice maker.price
        | .sell => max crossing.bestPrice maker.price
      qty := wrap64 (crossing.qty + maker.remainingQty)
      makers := crossing.makers + 1 }
  else
    crossing

def scanCrossing (tick : Nat) (taker : IncomingOrder) : Crossing :=
  (b.levelOrders tick).foldl (crossingStep taker)
    { bestPrice := taker.price, qty := 0, makers := 0 }

/-- The loop of `match_compressed_slot`: fill the best crossing price first. -/
def matchByPrice : Nat → Orderbook → Nat → IncomingOrder → Option (Orderbook × IncomingOrder)
  | 0, _, _, _ => none
  | fuel + 1, b, tick, aggressor =>
    let crossing := b.scanCrossing tick aggressor
    if 0 < crossing.makers then do
      let (b, aggressor) ← b.fillLevel tick aggressor crossing.bestPrice
      if aggressor.remainingQty = 0 ∨ b.isBudgetSpent then some (b, aggressor)
      else matchByPrice fuel b tick aggressor
    else
      some (b, aggressor)

/-- `match_compressed_slot`: when the taker covers every crossing maker the slot is walked in
arrival order, otherwise the best price fills first. -/
def matchCompressedSlot (tick : Nat) (aggressor : IncomingOrder) :
    Option (Orderbook × IncomingOrder) :=
  let crossing := b.scanCrossing tick aggressor
  let room := maxMakersPerOrder - b.eventBuf.length / 2
  if crossing.qty ≤ aggressor.remainingQty ∧ crossing.makers ≤ room then
    b.fillLevel tick aggressor aggressor.price
  else
    matchByPrice (b.orders.capacity + 1) b tick aggressor

def matchAtLevel (tick : Nat) (aggressor : IncomingOrder) : Option (Orderbook × IncomingOrder) :=
  if tick < b.compression.zoneSlots 0 then
    b.fillLevel tick aggressor aggressor.price
  else
    b.matchCompressedSlot tick aggressor

def matchLoop : Nat → Orderbook → IncomingOrder → Option (Orderbook × IncomingOrder)
  | 0, _, _ => none
  | fuel + 1, b, order =>
    let opposite := order.side.opposite
    if 0 < order.remainingQty ∧ b.bestTick opposite ≠ NONE then do
      let (b, matched) ← b.matchAtLevel (b.bestTick opposite) order
      let b := b.refreshBest opposite
      if matched.remainingQty = order.remainingQty then some (b, matched)
      else matchLoop fuel b matched
    else
      some (b, order)

/-- `sum_qty`: the quantity of the first `count` orders of a list. -/
def sumQty (orders : List OrderSlot) (count : Nat) : Int :=
  (orders.take count).foldl (fun total order => wrap64 (total + order.remainingQty)) 0

/-- The walk of `can_fill_fully` over the orders of one compressed slot: `.error` is a `return` out
of the function, `.ok` the makers and quantity counted so far. -/
def canFillOrders (side : Side) (limit needed : Int) :
    List OrderSlot → Nat → Int → Except Bool (Nat × Int)
  | [], makers, total => .ok (makers, total)
  | order :: rest, makers, total =>
    if isCrossing order.side order.price side limit then
      if maxMakersPerOrder < makers + 1 then .error false
      else
        let total := wrap64 (total + order.remainingQty)
        if needed ≤ total then .error true
        else canFillOrders side limit needed rest (makers + 1) total
    else
      canFillOrders side limit needed rest makers total

/-- The best price of a side among some orders (`min_sell`, `max_buy`). -/
def bestPrice (side : Side) (orders : List OrderSlot) : Int :=
  orders.foldl (fun best order =>
    if order.side = side ∧ side.improves order.price best then order.price else best) side.worstPx

def canFillLevel (side : Side) (limit needed : Int) (tick makers : Nat) (total : Int) :
    Except Bool (Nat × Int) :=
  let level := b.activeLevels tick
  let opposite := side.opposite
  if tick < b.compression.zoneSlots 0 then
    -- A single price per slot, so `totalQty` is exact.
    if ¬ side.within (b.orders.get level.head).price limit then .error false
    else if maxMakersPerOrder < makers + level.count opposite then
      let room := maxMakersPerOrder - makers
      .error (needed ≤ wrap64 (total + sumQty (b.levelOrders tick) room))
    else
      let total := wrap64 (total + level.totalQty)
      if needed ≤ total then .error true else .ok (makers + level.count opposite, total)
  else
    match canFillOrders side limit needed (b.levelOrders tick) makers total with
    | .error result => .error result
    | .ok counted =>
      if ¬ side.within (bestPrice opposite (b.levelOrders tick)) limit then .error false
      else .ok counted

/-- The next occupied level of a region, nearest price first, and the rest of the region. -/
def nextOccupied (side : Side) (region : Nat × Nat) : Option (Nat × (Nat × Nat)) :=
  match side with
  | .sell => ((b.occ .sell).findFirstIn region.1 region.2).map fun t => (t, (t + 1, region.2))
  | .buy => ((b.occ .buy).findLastIn region.1 region.2).map fun t => (t, (region.1, t))

def canFillRegion (side : Side) (limit needed : Int) :
    Nat → Nat × Nat → Nat → Int → Option (Except Bool (Nat × Int))
  | 0, _, _, _ => none
  | fuel + 1, region, makers, total =>
    match b.nextOccupied side.opposite region with
    | none => some (.ok (makers, total))
    | some (tick, region) =>
      match b.canFillLevel side limit needed tick makers total with
      | .error result => some (.error result)
      | .ok (makers, total) => canFillRegion side limit needed fuel region makers total

def canFillRegions (side : Side) (limit needed : Int) : List (Nat × Nat) → Nat → Int → Option Bool
  | [], _, _ => some false
  | region :: regions, makers, total => do
      let fuel := b.compression.totalSlots + 1
      match ← b.canFillRegion side limit needed fuel region makers total with
      | .error result => some result
      | .ok (makers, total) => canFillRegions side limit needed regions makers total

/-- `can_fill_fully`: regions are visited nearest price first. -/
def canFillFully (side : Side) (limit needed : Int) : Option Bool :=
  match side with
  | .buy => b.canFillRegions side limit needed b.priceAsc 0 0
  | .sell => b.canFillRegions side limit needed b.priceAsc.reverse 0 0

def fail (order : IncomingOrder) (reason : OrderFailureReason) : Option Orderbook :=
  b.emit (.orderFailed order.userId reason order.orderIdHi order.orderIdLo)

def done (order : IncomingOrder) (reason : OrderDoneReason) (filledQty remainingQty : Int) :
    Option Orderbook :=
  b.emit (.orderDone NONE order.tif order.reduceOnly order.userId reason filledQty remainingQty
    order.orderIdHi order.orderIdLo)

/-- What happens to the quantity left after the match; `fillable` is the quantity it began with. -/
def settleResidual (order : IncomingOrder) (fillable : Int) : Option Orderbook :=
  if 0 < order.remainingQty then
    if b.isMatchLimited order then
      b.done order .matchLimit (fillable - order.remainingQty) order.remainingQty
    else
      match order.tif with
      | .ioc => b.done order .expired (fillable - order.remainingQty) order.remainingQty
      | .fok => b.fail order .fillOrKill
      | .gtc => do
          let (handle, b) ← b.insertResting order.price order.remainingQty order.side order.tif
            order.userId order.reduceOnly order.timestampNs order.orderIdHi order.orderIdLo
          b.emit (.orderInserted handle order.userId order.side order.price order.remainingQty
            order.orderIdHi order.orderIdLo)
  else
    b.done order .filled fillable 0

def emitBbo : Option Orderbook :=
  let bbo := b.currentBbo
  b.emit (.bbo bbo.bidPx bbo.bidQty bbo.askPx bbo.askQty)

/-- The part of `process_new_order` reached by every order that passes the checks: match, settle the
residual, and report the best prices if they moved. -/
def execute (order : IncomingOrder) : Option Orderbook := do
  let (b', matched) ← matchLoop (b.orders.capacity + 2) b order
  let b' ← b'.settleResidual matched order.remainingQty
  if b'.bestTick .buy ≠ b.bestTick .buy ∨ b'.bestTick .sell ≠ b.bestTick .sell ∨
      b'.bestPx .buy ≠ b.bestPx .buy ∨ b'.bestPx .sell ≠ b.bestPx .sell then
    b'.emitBbo
  else
    some b'

def alignmentFailure (order : IncomingOrder) : Option OrderFailureReason :=
  if order.price ≤ 0 ∨ order.price.tmod b.config.tickSize ≠ 0 then some .invalidTick
  else if order.qty ≤ 0 ∨ order.qty.tmod b.config.lotSize ≠ 0 then some .invalidLot
  else none

/-- The reduce-only check: `none` rejects the order, otherwise its remaining quantity is clamped to
the position it may close. -/
def clampReduceOnly (order : IncomingOrder) : Option IncomingOrder :=
  if order.reduceOnly then
    match b.users.netQty order.userId with
    | none => none
    | some net =>
      let reject : Bool :=
        match order.side with
        | .buy => 0 ≤ net
        | .sell => net ≤ 0
      if reject then none
      else some { order with remainingQty := min order.remainingQty (min net.natAbs i64Max) }
  else
    some order

def processNewOrder (order : IncomingOrder) : Option Orderbook :=
  let b := { b with eventBuf := [] }
  match b.alignmentFailure order with
  | some reason => b.fail order reason
  | none =>
    match b.clampReduceOnly order with
    | none => b.fail order .reduceOnly
    | some order =>
      if order.postOnly && b.bestCrosses order then
        b.done order .postOnly 0 order.remainingQty
      else if order.tif = .fok then do
        if ← b.canFillFully order.side order.price order.remainingQty then b.execute order
        else b.fail order .fillOrKill
      else
        b.execute order

end Orderbook

end Rsx.Book
