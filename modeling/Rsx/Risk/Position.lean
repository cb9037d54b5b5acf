import Rsx.Book.Types

/-!
# Positions and accounts

`position.rs` and `account.rs` of the risk engine.  Amounts are `i64`: plain arithmetic wraps as it
does in a release build, and products are formed in `i128` and clamped.
-/

namespace Rsx.Risk

open Book

structure Position where
  userId : Nat
  symbolId : Nat
  longQty : Int := 0
  shortQty : Int := 0
  longEntryCost : Int := 0
  shortEntryCost : Int := 0
  realizedPnl : Int := 0
  lastFillSeq : Nat := 0
  version : Nat := 0
  deriving DecidableEq, Repr

namespace Position

/-- `apply_fill`.  The entry cost of the closed part is split off by a division that truncates. -/
def applyFill (p : Position) (side : Side) (price qty : Int) (seq : Nat) : Position :=
  let p' :=
    match side with
    | .buy =>
      if 0 < p.shortQty then
        let closeQty := min qty p.shortQty
        let closeCost := sat64 ((p.shortEntryCost * closeQty).tdiv p.shortQty)
        let remaining := wrap64 (qty - closeQty)
        let p' :=
          { p with
            realizedPnl := wrap64 (p.realizedPnl + sat64 (closeCost - price * closeQty))
            shortQty := wrap64 (p.shortQty - closeQty)
            shortEntryCost := wrap64 (p.shortEntryCost - closeCost) }
        if 0 < remaining then
          { p' with
            longQty := wrap64 (p.longQty + remaining)
            longEntryCost := wrap64 (p.longEntryCost + sat64 (price * remaining)) }
        else p'
      else
        { p with
          longQty := wrap64 (p.longQty + qty)
          longEntryCost := wrap64 (p.longEntryCost + sat64 (price * qty)) }
    | .sell =>
      if 0 < p.longQty then
        let closeQty := min qty p.longQty
        let closeCost := sat64 ((p.longEntryCost * closeQty).tdiv p.longQty)
        let remaining := wrap64 (qty - closeQty)
        let p' :=
          { p with
            realizedPnl := wrap64 (p.realizedPnl + sat64 (price * closeQty - closeCost))
            longQty := wrap64 (p.longQty - closeQty)
            longEntryCost := wrap64 (p.longEntryCost - closeCost) }
        if 0 < remaining then
          { p' with
            shortQty := wrap64 (p.shortQty + remaining)
            shortEntryCost := wrap64 (p.shortEntryCost + sat64 (price * remaining)) }
        else p'
      else
        { p with
          shortQty := wrap64 (p.shortQty + qty)
          shortEntryCost := wrap64 (p.shortEntryCost + sat64 (price * qty)) }
  { p' with version := p.version + 1, lastFillSeq := seq }

def netQty (p : Position) : Int :=
  wrap64 (p.longQty - p.shortQty)

def notional (p : Position) (markPrice : Int) : Option Int :=
  tryI64 (wrap64 p.netQty.natAbs * markPrice)

def avgEntry (p : Position) : Int :=
  if 0 < p.netQty then
    if p.longQty = 0 then 0 else p.longEntryCost.tdiv p.longQty
  else if p.netQty < 0 then
    if p.shortQty = 0 then 0 else p.shortEntryCost.tdiv p.shortQty
  else 0

def unrealizedPnl (p : Position) (markPrice : Int) : Option Int :=
  if p.netQty = 0 then some 0
  else tryI64 (p.netQty * wrap64 (markPrice - p.avgEntry))

def isEmpty (p : Position) : Bool :=
  p.longQty = 0 ∧ p.shortQty = 0

end Position

def calculateFee (qty price feeBps : Int) : Int :=
  sat64 (wrap128 (qty * price * feeBps) / 10000)

structure Account where
  userId : Nat
  collateral : Int
  version : Nat := 0
  deriving DecidableEq, Repr

/-- `deduct_fee`.  A negative fee is a rebate. -/
def Account.deductFee (a : Account) (fee : Int) : Account :=
  { a with collateral := sat64 (a.collateral - fee), version := a.version + 1 }

def Account.credit (a : Account) (amount : Int) : Account :=
  { a with collateral := sat64 (a.collateral + amount), version := a.version + 1 }

end Rsx.Risk
