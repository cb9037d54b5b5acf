import Rsx.Book.Types

/-!
# Messages and records of the matching engine

`wire.rs` and the records of `rsx-messages` that the engine reads and writes.  Padding, hop
timestamps and the symbol id, which is the same in all of them, are left out.
-/

namespace Rsx.Matching

open Book

abbrev OrderKey := Nat × Nat × Nat

/-- `OrderMessage`, with the wire bytes of the side, the time in force and the flags. -/
structure OrderMessage where
  userId : Nat
  orderIdHi : Nat := 0
  orderIdLo : Nat := 0
  price : Int
  qty : Int
  side : Nat
  tif : Nat := 0
  reduceOnly : Nat := 0
  postOnly : Nat := 0
  timestampNs : Nat := 0
  priceFits : price ≤ i64Max := by decide
  deriving DecidableEq, Repr

def OrderMessage.limit (userId orderIdLo side reduceOnly : Nat) (price qty : Int)
    (h : price ≤ i64Max := by decide) : OrderMessage :=
  { userId := userId, orderIdLo := orderIdLo, price := price, qty := qty, side := side
    reduceOnly := reduceOnly, priceFits := h }

structure CancelRequest where
  userId : Nat
  orderIdHi : Nat := 0
  orderIdLo : Nat := 0
  deriving DecidableEq, Repr

def OrderMessage.key (msg : OrderMessage) : OrderKey :=
  (msg.userId, msg.orderIdHi, msg.orderIdLo)

def CancelRequest.key (request : CancelRequest) : OrderKey :=
  (request.userId, request.orderIdHi, request.orderIdLo)

def decodeSide (side : Nat) : Side :=
  if side = 0 then .buy else .sell

def decodeTif (tif : Nat) : TimeInForce :=
  match tif with
  | 1 => .ioc
  | 2 => .fok
  | _ => .gtc

def toIncoming (msg : OrderMessage) : IncomingOrder where
  price := msg.price
  qty := msg.qty
  remainingQty := msg.qty
  side := decodeSide msg.side
  tif := decodeTif msg.tif
  userId := msg.userId
  reduceOnly := msg.reduceOnly ≠ 0
  postOnly := msg.postOnly ≠ 0
  timestampNs := msg.timestampNs
  orderIdHi := msg.orderIdHi
  orderIdLo := msg.orderIdLo
  priceFits := msg.priceFits

structure OrderAcceptedRecord where
  tsNs : Nat
  userId : Nat
  orderIdHi : Nat
  orderIdLo : Nat
  price : Int
  qty : Int
  side : Nat
  tif : Nat
  reduceOnly : Nat
  postOnly : Nat
  priceFits : price ≤ i64Max
  deriving DecidableEq, Repr

def OrderMessage.accepted (msg : OrderMessage) (tsNs : Nat) : OrderAcceptedRecord where
  tsNs := tsNs
  userId := msg.userId
  orderIdHi := msg.orderIdHi
  orderIdLo := msg.orderIdLo
  price := msg.price
  qty := msg.qty
  side := msg.side
  tif := msg.tif
  reduceOnly := msg.reduceOnly
  postOnly := msg.postOnly
  priceFits := msg.priceFits

/-- The order a replay builds from the record.  It has the time of the record, not that of the
message. -/
def OrderAcceptedRecord.toIncoming (rec : OrderAcceptedRecord) : IncomingOrder where
  price := rec.price
  qty := rec.qty
  remainingQty := rec.qty
  side := decodeSide rec.side
  tif := decodeTif rec.tif
  userId := rec.userId
  reduceOnly := rec.reduceOnly ≠ 0
  postOnly := rec.postOnly ≠ 0
  timestampNs := rec.tsNs
  orderIdHi := rec.orderIdHi
  orderIdLo := rec.orderIdLo
  priceFits := rec.priceFits

/-- `FillRecord`.  `reduceOnly` and `tif` are the maker's. -/
structure FillRecord where
  tsNs : Nat
  takerUserId : Nat
  makerUserId : Nat
  takerOrderIdHi : Nat
  takerOrderIdLo : Nat
  makerOrderIdHi : Nat
  makerOrderIdLo : Nat
  price : Int
  qty : Int
  takerSide : Side
  reduceOnly : Bool
  tif : TimeInForce
  deriving DecidableEq, Repr

inductive Record
  | orderAccepted (rec : OrderAcceptedRecord)
  | fill (rec : FillRecord)
  | orderInserted (tsNs userId orderIdHi orderIdLo : Nat) (price qty : Int) (side : Side)
      (reduceOnly : Bool) (tif : TimeInForce)
  | orderCancelled (tsNs userId orderIdHi orderIdLo : Nat) (remainingQty : Int)
      (reduceOnly : Bool) (tif : TimeInForce)
  | orderDone (tsNs userId orderIdHi orderIdLo : Nat) (filledQty remainingQty : Int)
      (finalStatus : Nat) (reduceOnly : Bool) (tif : TimeInForce) (cancelReason : Nat)
  | orderFailed (tsNs userId orderIdHi orderIdLo reason : Nat)
  | bbo (tsNs : Nat) (bidPx bidQty askPx askQty : Int)
  | configApplied (tsNs configVersion effectiveAtMs : Nat)
  deriving DecidableEq, Repr

def doneStatusAndReason : OrderDoneReason → Nat × Nat
  | .filled => (0, 0)
  | .userCancel => (2, 0)
  | .expired => (2, 2)
  | .postOnly => (2, 4)
  | .matchLimit => (2, 3)

def failureReasonCode : OrderFailureReason → Nat
  | .invalidTick => 0
  | .invalidLot => 1
  | .reduceOnly => 7
  | .fillOrKill => 13
  | .duplicate => 3

end Rsx.Matching
