import Rsx.Book.Exchange
import Rsx.Book.Matching
import Rsx.Book.Migration
import Rsx.Book.Proof.Compression
import Rsx.Lib.Run

/-!
# Runs of a book

The calls that change a book, in any order, and the limits a run has to stay within.
-/

namespace Rsx.Book

inductive Call
  | newOrder (order : IncomingOrder)
  | cancelOrderChecked (handle userId orderIdHi orderIdLo : Nat)
  | recenterNow (newMid : Int)

def CompressionMap.Wide (m : CompressionMap) : Prop :=
  2 ≤ m.zoneSlots 1 ∧ 2 ≤ m.zoneSlots 2 ∧ 2 ≤ m.zoneSlots 3

instance (m : CompressionMap) : Decidable m.Wide :=
  inferInstanceAs (Decidable (_ ∧ _))

namespace Orderbook

def call (b : Orderbook) : Call → Option Orderbook
  | .newOrder order => b.processNewOrder order
  | .cancelOrderChecked handle userId orderIdHi orderIdLo =>
    some (b.cancelOrderChecked handle userId orderIdHi orderIdLo).2
  | .recenterNow newMid => b.recenterNow newMid

/-- A new order has its whole quantity left, and with it the quantities of the book fit `i64`. -/
def FreshFits (b : Orderbook) (order : IncomingOrder) : Prop :=
  order.remainingQty = order.qty ∧ b.exchange.totalQty + order.qty ≤ i64Max
  deriving Decidable

/-- The call stays within the machine limits: quantities fit `i64`, a new map is well sized, and
every price rests in a zone that has a slot on each side. -/
def Fits (b : Orderbook) : Call → Prop
  | .newOrder order => b.FreshFits order ∧ b.compression.Regular order.price
  | .cancelOrderChecked .. => True
  | .recenterNow newMid =>
    CompressionMap.WellSized newMid b.config.tickSize ∧
      ∀ o ∈ b.resting, (CompressionMap.new newMid b.config.tickSize).Regular o.price

/-- The call stays within the machine limits, and every map has two slots in the zones 1 to 3. -/
def WideFits (b : Orderbook) : Call → Prop
  | .newOrder order => b.FreshFits order
  | .cancelOrderChecked .. => True
  | .recenterNow newMid =>
    CompressionMap.WellSized newMid b.config.tickSize ∧
      (CompressionMap.new newMid b.config.tickSize).Wide

instance (b : Orderbook) : ∀ c, Decidable (b.Fits c)
  | .newOrder _ => inferInstanceAs (Decidable (_ ∧ _))
  | .cancelOrderChecked .. => .isTrue trivial
  | .recenterNow _ => inferInstanceAs (Decidable (_ ∧ _))

instance (b : Orderbook) : ∀ c, Decidable (b.WideFits c)
  | .newOrder _ => inferInstanceAs (Decidable (FreshFits _ _))
  | .cancelOrderChecked .. => .isTrue trivial
  | .recenterNow _ => inferInstanceAs (Decidable (_ ∧ _))

end Orderbook

end Rsx.Book
