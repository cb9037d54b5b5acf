import Rsx.Risk.Position

/-!
# Portfolio margin

`margin.rs`: what an account is worth at a vector of prices, what it must hold, and the check an
order passes before it is sent on.  A symbol without parameters is not configured.
-/

namespace Rsx.Risk

open Book

abbrev OrderId := Nat × Nat

/-- `SymbolRiskParams`.  Rates are in basis points. -/
structure SymbolRiskParams where
  initialMarginRate : Int
  maintenanceMarginRate : Int
  maxLeverage : Int
  minNotional : Int
  deriving DecidableEq, Repr

structure MarginState where
  equity : Int
  unrealizedPnl : Int
  initialMargin : Int
  maintenanceMargin : Int
  availableMargin : Int
  grossNotional : Int
  deriving DecidableEq, Repr

/-- `OrderRequest`, as far as the checks read it. -/
structure OrderRequest where
  userId : Nat
  symbolId : Nat
  price : Int
  qty : Int
  orderId : OrderId
  timestampNs : Nat := 0
  side : Side
  tif : Nat := 0
  reduceOnly : Bool := false
  postOnly : Bool := false
  isLiquidation : Bool := false
  deriving DecidableEq, Repr

inductive RejectReason
  | insufficientMargin
  | userInLiquidation
  | notInShard
  | symbolNotConfigured
  | orderTooSmall
  deriving DecidableEq, Repr

structure PortfolioMargin where
  symbolParams : Nat → Option SymbolRiskParams

namespace PortfolioMargin

structure Sums where
  upnl : Int := 0
  im : Int := 0
  mm : Int := 0
  gross : Int := 0
  deriving DecidableEq, Repr

def requirement (notional rate : Int) : Int :=
  (tryI64 ((notional * rate).tdiv 10000)).getD i64Max

def addPosition (m : PortfolioMargin) (markPrices : Nat → Int) (sums : Sums) (pos : Position) :
    Sums :=
  match m.symbolParams pos.symbolId with
  | none => sums
  | some params =>
    let mark := markPrices pos.symbolId
    let notional := (pos.notional mark).getD i64Max
    { upnl := sat64 (sums.upnl + (pos.unrealizedPnl mark).getD i64Min)
      im := sat64 (sums.im + requirement notional params.initialMarginRate)
      mm := sat64 (sums.mm + requirement notional params.maintenanceMarginRate)
      gross := sat64 (sums.gross + notional) }

def calculate (m : PortfolioMargin) (account : Account) (positions : List Position)
    (markPrices : Nat → Int) (frozen : Int) : MarginState :=
  let sums := positions.foldl (m.addPosition markPrices) {}
  let equity := sat64 (account.collateral + sums.upnl)
  { equity := equity
    unrealizedPnl := sums.upnl
    initialMargin := sums.im
    maintenanceMargin := sums.mm
    availableMargin := sat64 (sat64 (equity - sums.im) - frozen)
    grossNotional := sums.gross }

def needsLiquidation (state : MarginState) : Bool :=
  state.equity < state.maintenanceMargin

end PortfolioMargin

/-- `rests`: the engine decodes every other time in force as good till cancelled. -/
def rests (order : OrderRequest) : Bool :=
  order.tif ≠ 1 ∧ order.tif ≠ 2

def closesWholePosition (positions : List Position) (order : OrderRequest) : Bool :=
  positions.any fun position =>
    position.symbolId = order.symbolId ∧ (position.netQty.natAbs : Int) = order.qty

def calculateMarginNeeded (params : SymbolRiskParams) (price qty takerFeeBps : Int) : Int :=
  let orderNotional := (tryI64 (price * qty)).getD i64Max
  sat64 (PortfolioMargin.requirement orderNotional params.initialMarginRate +
    calculateFee qty price takerFeeBps)

def exceedsLeverage (params : SymbolRiskParams) (state : MarginState) (orderNotional : Int) :
    Bool :=
  0 < params.maxLeverage ∧ (state.equity ≤ 0 ∨ max (sat64 (state.equity * params.maxLeverage)) 0 <
        sat64 (state.grossNotional + orderNotional))

/-- `check_order`: the margin to reserve, or why the order is rejected. -/
def PortfolioMargin.checkOrder (m : PortfolioMargin) (account : Account)
    (positions : List Position) (order : OrderRequest) (markPrices : Nat → Int)
    (takerFeeBps frozen : Int) : Except RejectReason Int :=
  if order.isLiquidation then .ok 0
  else
    match m.symbolParams order.symbolId with
    | none => .error .symbolNotConfigured
    | some params =>
      let belowMinimum := order.price * order.qty < params.minNotional
      if order.reduceOnly then
        if belowMinimum ∧ rests order ∧ ¬ closesWholePosition positions order then
          .error .orderTooSmall
        else .ok 0
      else if belowMinimum then .error .orderTooSmall
      else
        let state := m.calculate account positions markPrices frozen
        let orderNotional := (tryI64 (order.price * order.qty)).getD i64Max
        if exceedsLeverage params state orderNotional then .error .insufficientMargin
        else
          let marginNeeded := calculateMarginNeeded params order.price order.qty takerFeeBps
          if state.availableMargin < marginNeeded then .error .insufficientMargin
          else .ok marginNeeded

end Rsx.Risk
