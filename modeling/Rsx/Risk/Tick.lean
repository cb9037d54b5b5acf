import Rsx.Risk.Shard

/-!
# Funding and the periodic tick

`funding.rs` without its queries, and `tick`: queued cancels, the rounds of the liquidation engine,
socialized losses, the stashed quotes with their margin scan, and funding.
-/

namespace Rsx.Risk

open Function Book

/-! ## Funding -/

def calculateRate (mark index minBps maxBps : Int) : Int :=
  if index = 0 then 0
  else min (max (sat64 (((mark - index) * 10000).tdiv index)) minBps) maxBps

def calculatePayment (netQty mark rate : Int) : Int :=
  sat64 (wrap128 (netQty * mark * rate) / 10000)

/-- The turn of the loop of `largest_idx` at index `i`. -/
def largerIdx (best : Option (Nat × Int)) (i : Nat) (netQty : Int) : Option (Nat × Int) :=
  let mag := min (netQty.natAbs : Int) i64Max
  match best with
  | some (_, b) => if mag ≤ b then best else some (i, mag)
  | none => some (i, mag)

def largestIdx (netQtys : List Int) : Option Nat :=
  ((netQtys.zipIdx.foldl (fun best (netQty, i) => largerIdx best i netQty) none)).map Prod.fst

/-- `settle_symbol`: the rounding of the single payments is taken from the largest position. -/
def settleSymbol (netQtys : List Int) (mark rate : Int) : List Int :=
  let payments := netQtys.map fun netQty => calculatePayment netQty mark rate
  let residual := sat64 (payments.sum - calculatePayment netQtys.sum mark rate)
  if residual = 0 then payments
  else
    match largestIdx netQtys with
    | some i => payments.modify i fun payment => sat64 (payment - residual)
    | none => payments

def intervalId (unixSecs intervalSecs : Nat) : Nat :=
  if intervalSecs = 0 then 0 else unixSecs / intervalSecs

namespace Shard

def payFunding (s : Shard) (userId : Nat) (amount : Int) : Shard :=
  let s := s.ensureAccount userId
  match s.accounts userId with
  | some account => s.setAccount userId (account.deductFee amount)
  | none => s

def exposed (s : Shard) (sid : Nat) : List (Nat × Int) :=
  ((s.exposure sid).filterMap fun userId =>
    (s.positions userId sid).map fun position => (userId, position.netQty)).insertionSort
      fun a b => a.1 ≤ b.1

def fundingRate (s : Shard) (sid : Nat) : Int :=
  if s.markPrices sid ≠ 0 ∧ (s.indexPrices sid).price ≠ 0 then
    calculateRate (s.markPrices sid) (s.indexPrices sid).price (s.fundingMinBps sid)
      (s.fundingMaxBps sid)
  else 0

/-- `try_settle_interval`; `none` when open positions have no price yet. -/
def trySettleInterval (s : Shard) (sid id nowSecs : Nat) : Option Shard :=
  let exposed := s.exposed sid
  let isPriced : Bool := s.markPrices sid ≠ 0 ∧ (s.indexPrices sid).price ≠ 0
  if (exposed.any fun entry => entry.2 ≠ 0) ∧ ¬ isPriced then none
  else
    let rate := s.fundingRate sid
    let amounts := settleSymbol (exposed.map Prod.snd) (s.markPrices sid) rate
    let paid := (exposed.map Prod.fst).zip amounts
    let s' := paid.foldl (fun s (userId, amount) => s.payFunding userId amount) s
    let settlement : FundingSettlement :=
      { symbolId := sid
        intervalId := id
        payments := paid.map fun (userId, amount) => ⟨userId, sid, id, amount, rate, nowSecs⟩
        accounts := paid.filterMap fun (userId, _) => s'.accounts userId }
    let s' := s'.pushPersist (.fundingSettlement settlement)
    some { s' with fundingSettled := update s'.fundingSettled sid (some id) }

/-- The inner loop of `maybe_settle_funding`: intervals `id`, `id + 1`, ... until one waits. -/
def settleIntervals (sid nowSecs : Nat) : Nat → Nat → Shard → Shard
  | 0, _, s => s
  | count + 1, id, s =>
    match s.trySettleInterval sid id nowSecs with
    | some s' => settleIntervals sid nowSecs count (id + 1) s'
    | none => s

/-- One turn of the loop of `maybe_settle_funding` over the symbols.  A symbol that never settled
settles the current interval. -/
def settleSymbolFunding (nowSecs : Nat) (s : Shard) (sid : Nat) : Shard :=
  match s.margin.symbolParams sid with
  | none => s
  | some _ =>
    let currentId := intervalId nowSecs (s.fundingIntervalSecs sid)
    let firstId := match s.fundingSettled sid with
      | some lastId => lastId + 1
      | none => currentId
    settleIntervals sid nowSecs (currentId + 1 - firstId) firstId s

def maybeSettleFunding (s : Shard) (nowSecs : Nat) : Shard :=
  if nowSecs = s.fundingCheckedSecs then s
  else
    (List.range s.maxSymbols).foldl (settleSymbolFunding nowSecs)
      { s with fundingCheckedSecs := nowSecs }

end Shard

/-! ## Rings -/

inductive MeCommand
  | order (order : OrderRequest)
  | cancel (request : CancelRequest)
  deriving DecidableEq, Repr

structure Ring (α : Type) where
  items : List α := []
  capacity : Nat

def Ring.isFull {α : Type} (ring : Ring α) : Bool :=
  ring.capacity ≤ ring.items.length

def Ring.push {α : Type} (ring : Ring α) (item : α) : Option (Ring α) :=
  if ring.isFull then none else some { ring with items := ring.items ++ [item] }

structure ShardRings where
  response : Ring OrderResponse
  me : Ring MeCommand

def ShardRings.anyFull (rings : ShardRings) : Bool :=
  rings.me.isFull || rings.response.isFull

namespace Shard

/-! ## The tick -/

def drainCancels (frozenOrders : OrderId → Option Freeze) :
    List CancelRequest → Ring MeCommand → List CancelRequest × Ring MeCommand
  | [], me => ([], me)
  | cancel :: cancels, me =>
    if me.isFull then (cancel :: cancels, me)
    else if (frozenOrders cancel.orderId).isNone then drainCancels frozenOrders cancels me
    else drainCancels frozenOrders cancels { me with items := me.items ++ [.cancel cancel] }

def drainPendingCancels (s : Shard) (rings : ShardRings) : Shard × ShardRings :=
  let (cancels, me) := drainCancels s.frozenOrders s.pendingCancels rings.me
  ({ s with pendingCancels := cancels }, { rings with me := me })

def liqToOrder (s : Shard) (liq : LiquidationOrder) (orderId : OrderId) (nowNs : Nat) :
    OrderRequest where
  userId := liq.userId
  symbolId := liq.symbolId
  price := roundToTick liq.price (s.tickSize liq.symbolId) liq.side
  qty := liq.qty
  orderId := orderId
  timestampNs := nowNs
  side := liq.side
  tif := 1
  reduceOnly := true
  isLiquidation := true

/-- The loop of `tick` over the liquidation orders; the flag is false when a full ring stopped
it. -/
def placeOrders (ids : Nat → OrderId) (nowNs : Nat) :
    List LiquidationOrder → Shard → ShardRings → Shard × ShardRings × Bool
  | [], s, rings => (s, rings, true)
  | liq :: rest, s, rings =>
    if rings.anyFull then (s, rings, false)
    else
      let order := s.liqToOrder liq (ids rest.length) nowNs
      match s.processOrder order with
      | (s', .accepted ..) =>
        placeOrders ids nowNs rest s'
          { me := { rings.me with items := rings.me.items ++ [.order order] }
            response :=
              { rings.response with
                items := rings.response.items ++ [.liquidation liq.userId liq.symbolId 0 liq.round
                  liq.side liq.qty order.price liq.slipBps] } }
      | (s', _) => placeOrders ids nowNs rest s' rings

/-- The loop of `tick` over the socialized losses.  A notice is dropped when its ring is full. -/
def socializeLosses (nowNs : Nat) : List SocializedLoss → Shard → ShardRings → Shard × ShardRings
  | [], s, rings => (s, rings)
  | loss :: rest, s, rings =>
    match s.processSocializedLoss loss nowNs with
    | (s', none) => socializeLosses nowNs rest s' rings
    | (s', some notice) =>
      socializeLosses nowNs rest s'
        { rings with response := (rings.response.push notice).getD rings.response }

/-- One symbol of `drain_stashed_bbos`: the quote, then the margin scan of its users. -/
def drainSymbol (nowNs : Nat) (s : Shard) (sid : Nat) : Shard :=
  match s.stashedBbo sid with
  | none => s
  | some bbo =>
    let s := { s with stashedBbo := update s.stashedBbo sid none }.processBbo bbo
    (s.exposure sid).foldl (fun s userId => s.checkLiquidationFor userId nowNs) s

def drainStashedBbos (s : Shard) (nowNs : Nat) : Shard :=
  (List.range s.maxSymbols).foldl (drainSymbol nowNs) s

def signedPosition (s : Shard) (userId symbolId : Nat) : Int :=
  ((s.positions userId symbolId).map Position.netQty).getD 0

def markFor (s : Shard) (symbolId : Nat) : Int :=
  if symbolId < s.maxSymbols then s.fallbackMarkPrices symbolId else 0

def dueSteps (s : Shard) (nowNs : Nat) :
    LiquidationEngine × List LiquidationOrder × List SocializedLoss :=
  s.liquidation.maybeProcess nowNs s.signedPosition s.markFor

/-- The steps of `tick` before `drain_stashed_bbos`, and whether they were not stopped by a full
ring.  `ids` are the order ids it draws. -/
def beforeQuotes (s : Shard) (rings : ShardRings) (nowSecs : Nat) (ids : Nat → OrderId) :
    Shard × ShardRings × Bool :=
  let nowNs := nowSecs * 1000000000
  let s := s.drainConfigUpdates
  if rings.anyFull then (s, rings, false)
  else
    let (s, rings) := s.drainPendingCancels rings
    let s := s.freshPrices
    let (liquidation, orders, losses) := s.dueSteps nowNs
    let s := { s with liquidation := liquidation }
    match placeOrders ids nowNs orders s rings with
    | (s, rings, false) => (s, rings, false)
    | (s, rings, true) =>
      let (s, rings) := socializeLosses nowNs losses s rings
      ({ s with liquidation := s.liquidation.removeDone }, rings, true)

/-- `tick`.  A ring that is full at the start, or before one of the liquidation orders, ends it. -/
def tick (s : Shard) (rings : ShardRings) (nowSecs : Nat) (ids : Nat → OrderId) :
    Shard × ShardRings :=
  match s.beforeQuotes rings nowSecs ids with
  | (s, rings, false) => (s, rings)
  | (s, rings, true) =>
    ((s.drainStashedBbos (nowSecs * 1000000000)).maybeSettleFunding nowSecs, rings)

end Shard

end Rsx.Risk
