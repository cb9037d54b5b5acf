import Rsx.Lib.Machine

/-!
# Orders, price levels and events

The records of `rsx-book` (`order.rs`, `level.rs`, `event.rs`) and the incoming order of
`matching.rs`.  Prices and quantities are `i64` raw units; handles, slot indices and user ids are
`u32`; order ids are a pair of `u64`.
-/

namespace Rsx.Book

/-- The null handle and the null tick, `u32::MAX`. -/
abbrev NONE : Nat := 4294967295

inductive Side
  | buy
  | sell
  deriving DecidableEq, Repr

@[simp] def Side.opposite : Side → Side
  | .buy => .sell
  | .sell => .buy

/-- `s.improves p q`: for an order resting on side `s`, price `p` is better than `q`. -/
def Side.improves : Side → Int → Int → Bool
  | .buy, p, q => q < p
  | .sell, p, q => p < q

/-- `s.within p limit`: a taker of side `s` with this limit accepts the price `p`. -/
def Side.within : Side → Int → Int → Bool
  | .buy, p, limit => p ≤ limit
  | .sell, p, limit => limit ≤ p

/-- The price every `i64` price on this side is at least as good as. -/
def Side.worstPx : Side → Int
  | .buy => i64Min
  | .sell => i64Max

inductive TimeInForce
  | gtc
  | ioc
  | fok
  deriving DecidableEq, Repr

/-- A slot of the order slab.  The `flags` byte is its two bits, `active` and `reduceOnly`. -/
structure OrderSlot where
  price : Int := 0
  remainingQty : Int := 0
  side : Side := .buy
  active : Bool := false
  reduceOnly : Bool := false
  tif : TimeInForce := .gtc
  next : Nat := NONE
  prev : Nat := NONE
  tickIndex : Nat := 0
  userId : Nat := 0
  sequence : Nat := 0
  originalQty : Int := 0
  timestampNs : Nat := 0
  orderIdHi : Nat := 0
  orderIdLo : Nat := 0
  deriving DecidableEq, Repr

/-- A price level.  `count` holds `bid_count` and `ask_count`. -/
structure PriceLevel where
  head : Nat := NONE
  tail : Nat := NONE
  totalQty : Int := 0
  orderCount : Nat := 0
  count : Side → Nat := fun _ => 0

/-- An order as it enters the book.  Its price is an `i64`. -/
@[ext]
structure IncomingOrder where
  price : Int
  qty : Int
  remainingQty : Int
  side : Side
  tif : TimeInForce
  userId : Nat
  reduceOnly : Bool := false
  postOnly : Bool := false
  timestampNs : Nat := 0
  orderIdHi : Nat := 0
  orderIdLo : Nat := 0
  priceFits : price ≤ i64Max := by decide
  deriving Repr

instance : DecidableEq IncomingOrder := fun _ _ => decidable_of_iff' _ IncomingOrder.ext_iff

def maxEvents : Nat := 65536

/-- Makers one order may match: each costs at most a fill and an order-done event. -/
def maxMakersPerOrder : Nat := (maxEvents - 4) / 2

inductive OrderDoneReason
  | filled
  | userCancel
  | expired
  | postOnly
  | matchLimit
  deriving DecidableEq, Repr

inductive OrderFailureReason
  | invalidTick
  | reduceOnly
  | fillOrKill
  | duplicate
  | invalidLot
  deriving DecidableEq, Repr

inductive Event
  | fill (makerHandle : Nat) (makerTif : TimeInForce) (makerReduceOnly : Bool)
      (makerUserId takerUserId : Nat) (price qty : Int) (side : Side)
      (makerOrderIdHi makerOrderIdLo takerOrderIdHi takerOrderIdLo gwInNs : Nat)
  | orderInserted (handle userId : Nat) (side : Side) (price qty : Int)
      (orderIdHi orderIdLo : Nat)
  | orderCancelled (handle userId : Nat) (remainingQty : Int) (orderIdHi orderIdLo : Nat)
  | orderDone (handle : Nat) (tif : TimeInForce) (reduceOnly : Bool) (userId : Nat)
      (reason : OrderDoneReason) (filledQty remainingQty : Int) (orderIdHi orderIdLo : Nat)
  | orderFailed (userId : Nat) (reason : OrderFailureReason) (orderIdHi orderIdLo : Nat)
  | bbo (bidPx bidQty askPx askQty : Int)
  deriving DecidableEq, Repr

structure Bbo where
  bidPx : Int
  bidQty : Int
  askPx : Int
  askQty : Int
  deriving DecidableEq, Repr

structure BookConfig where
  symbolId : Nat
  tickSize : Int
  lotSize : Int
  deriving DecidableEq, Repr

end Rsx.Book
