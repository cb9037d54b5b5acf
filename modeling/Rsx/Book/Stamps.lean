import Rsx.Book.Exchange

/-!
# Time stamps

Matching does not look at the time of an order, so an exchange that forgets the times goes through
the same submissions.
-/

namespace Rsx.Book

open PriceTime HasQty List

def IncomingOrder.stamped (order : IncomingOrder) (timestampNs : Nat) : IncomingOrder :=
  { order with timestampNs := timestampNs }

def Resting.unstamped (o : Resting) : Resting :=
  { o with timestampNs := 0 }

def Exchange.unstamped (x : Exchange) : Exchange where
  orders s := (x.orders s).map Resting.unstamped
  sorted s := (x.sorted s).map Resting.unstamped fun _ _ h => h

def Submission.unstamped (sub : Submission) : Submission where
  fills := sub.fills.map fun f => (f.1.unstamped, f.2)
  ending := sub.ending
  book := sub.book.unstamped

namespace Exchange

variable (x : Exchange) (order : IncomingOrder) (tsNs : Nat)

theorem orders_unstamped (s : Side) : x.unstamped.orders s = (x.orders s).map Resting.unstamped :=
  rfl

theorem makers_unstamped :
    x.unstamped.makers (order.stamped tsNs) = (x.makers order).map Resting.unstamped := by
  unfold makers
  rw [orders_unstamped, filter_map]
  rfl

theorem consumed_unstamped : x.unstamped.consumed (order.stamped tsNs) =
      { fills := (x.consumed order).fills.map fun f => (f.1.unstamped, f.2)
        rest := (x.consumed order).rest.map Resting.unstamped
        budget := (x.consumed order).budget
        left := (x.consumed order).left } := by
  unfold consumed
  rw [makers_unstamped]
  exact consumeIf_map Resting.unstamped (fun _ => rfl) fun _ _ => rfl

theorem matched_unstamped :
    x.unstamped.matched (order.stamped tsNs) = (x.matched order).unstamped := by
  ext1
  funext s
  by_cases hs : s = order.side.opposite
  · subst hs
    have hleft : (x.unstamped.matched (order.stamped tsNs)).orders order.side.opposite = _ :=
      orders_matched
    rw [hleft, consumed_unstamped, orders_unstamped, orders_unstamped, orders_matched,
      map_append, filter_map]
    rfl
  · have hleft : (x.unstamped.matched (order.stamped tsNs)).orders s = _ :=
      orders_matched_of_ne hs
    rw [hleft, orders_unstamped, orders_unstamped, orders_matched_of_ne hs]

theorem add_unstamped (o : Resting) : x.unstamped.add o.unstamped = (x.add o).unstamped := by
  ext1
  funext s
  by_cases hs : s = o.side
  · subst hs
    have hleft : (x.unstamped.add o.unstamped).orders o.side = _ := orders_add o.unstamped
    rw [hleft, orders_unstamped, orders_unstamped, orders_add]
    unfold place
    rw [map_append, filter_map, filter_map]
    rfl
  · have hleft : (x.unstamped.add o.unstamped).orders s = _ := orders_add_of_ne hs
    rw [hleft, orders_unstamped, orders_unstamped, orders_add_of_ne hs]

theorem trade_unstamped : x.unstamped.trade (order.stamped 0) = (x.trade order).unstamped := by
  unfold trade
  simp only [consumed_unstamped, matched_unstamped, ne_eq, map_eq_nil_iff]
  split_ifs
  · rfl
  · rfl
  · rw [show (order.stamped 0).tif = order.tif from rfl]
    cases order.tif with
    | ioc | fok => rfl
    | gtc =>
      simp only [Submission.unstamped]
      congr 1
      exact (x.matched order).add_unstamped (order.setRemaining (x.consumed order).left).resting

theorem submitIf_unstamped (fits : Bool) :
    x.unstamped.submitIf (order.stamped 0) fits = (x.submitIf order fits).unstamped := by
  unfold submitIf
  simp only [makers_unstamped, ne_eq, map_eq_nil_iff, trade_unstamped]
  have hpost : (order.stamped 0).postOnly = order.postOnly := rfl
  have htif : (order.stamped 0).tif = order.tif := rfl
  rw [hpost, htif]
  split_ifs <;> rfl

theorem totalQty_unstamped : x.unstamped.totalQty = x.totalQty := by
  unfold totalQty total
  rw [orders_unstamped, orders_unstamped, map_map, map_map]
  rfl

theorem size_unstamped : x.unstamped.size = x.size := by
  unfold size
  rw [orders_unstamped, orders_unstamped, length_map, length_map]

variable {x} {y : Exchange} {order}

theorem submitIf_congr (h : x.unstamped = y.unstamped) (tsNs : Nat) (fits : Bool) :
    (x.submitIf order fits).unstamped = (y.submitIf (order.stamped tsNs) fits).unstamped := by
  rw [← submitIf_unstamped, ← submitIf_unstamped, h]
  rfl

theorem fillable_congr (h : x.unstamped = y.unstamped) (tsNs : Nat) :
    x.fillable order = y.fillable (order.stamped tsNs) := by
  have hmakers : (x.makers order).map Resting.unstamped =
      (y.makers (order.stamped tsNs)).map Resting.unstamped := by
    rw [← makers_unstamped x order 0, h]
    exact makers_unstamped y (order.stamped tsNs) 0
  have htotal := congrArg (fun l => total (l.take maxMakersPerOrder)) hmakers
  simp only [← map_take] at htotal
  have hmap : ∀ l : List Resting, total (l.map Resting.unstamped) = total l := fun l => by
    unfold total
    rw [map_map]
    rfl
  rw [hmap, hmap] at htotal
  unfold fillable
  rw [htotal]
  rfl

end Exchange

end Rsx.Book
