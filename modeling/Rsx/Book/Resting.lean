import Rsx.Book.Orderbook
import Rsx.Lib.PriceTime

/-!
# Resting orders

What a resting order is to the outside world: its owner, identity, price and quantity, without the
links and indices that place it in the book.
-/

namespace Rsx.Book

open PriceTime

structure Resting where
  userId : Nat
  orderIdHi : Nat
  orderIdLo : Nat
  side : Side
  price : Int
  remainingQty : Int
  originalQty : Int
  tif : TimeInForce
  reduceOnly : Bool
  timestampNs : Nat
  deriving DecidableEq, Repr

def OrderSlot.resting (slot : OrderSlot) : Resting :=
  { userId := slot.userId
    orderIdHi := slot.orderIdHi
    orderIdLo := slot.orderIdLo
    side := slot.side
    price := slot.price
    remainingQty := slot.remainingQty
    originalQty := slot.originalQty
    tif := slot.tif
    reduceOnly := slot.reduceOnly
    timestampNs := slot.timestampNs }

def IncomingOrder.resting (order : IncomingOrder) : Resting :=
  { userId := order.userId
    orderIdHi := order.orderIdHi
    orderIdLo := order.orderIdLo
    side := order.side
    price := order.price
    remainingQty := order.remainingQty
    originalQty := order.remainingQty
    tif := order.tif
    reduceOnly := order.reduceOnly
    timestampNs := order.timestampNs }

def IncomingOrder.setRemaining (order : IncomingOrder) (r : Int) : IncomingOrder :=
  { order with remainingQty := r }

structure Entry where
  handle : Nat
  order : Resting
  deriving DecidableEq, Repr

instance : HasQty Resting where
  qty o := o.remainingQty
  setQty o q := { o with remainingQty := q }
  qty_setQty _ _ := rfl

instance : HasQty Entry where
  qty e := e.order.remainingQty
  setQty e q := { e with order := { e.order with remainingQty := q } }
  qty_setQty _ _ := rfl

/-- Priority of a price among the orders of a side: the smaller, the better. -/
def Side.key : Side → Int → Int
  | .buy, p => -p
  | .sell, p => p

namespace Side

variable {s : Side} {p q limit : Int}

theorem improves_iff : s.improves p q = true ↔ s.key p < s.key q := by
  cases s <;> simp [improves, key]

theorem within_iff : s.within p limit = true ↔ s.opposite.key p ≤ s.opposite.key limit := by
  cases s <;> simp [within, key]

theorem key_injective (s : Side) : Function.Injective s.key := by
  intro p q h
  cases s <;> simp only [key] at h <;> omega

@[simp] theorem key_inj : s.key p = s.key q ↔ p = q :=
  s.key_injective.eq_iff

theorem key_worstPx (s : Side) (hmin : i64Min ≤ p) (hmax : p ≤ i64Max) :
    s.key p ≤ s.key s.worstPx := by
  cases s <;> simp only [key, worstPx] <;> omega

theorem ne_iff_eq_opposite {s t : Side} : s ≠ t ↔ s = t.opposite := by
  cases s <;> cases t <;> decide

end Side

end Rsx.Book
