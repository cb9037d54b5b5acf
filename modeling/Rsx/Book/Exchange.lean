import Rsx.Book.Resting
import Rsx.Lib.Buckets

/-!
# The naive exchange

What the book is for, without slots, links or bitmaps: one list of resting orders per side, best
price first and by arrival within a price.  An incoming order consumes the front of the opposite
list; what is left of a good-till-cancel order is placed behind the orders of its price.
-/

namespace Rsx.Book

open Function PriceTime List

inductive Ending
  | done (reason : OrderDoneReason) (filledQty remainingQty : Int)
  | inserted (qty : Int)
  | failed (reason : OrderFailureReason)
  deriving DecidableEq, Repr

structure FillReport where
  userId : Nat
  orderIdHi : Nat
  orderIdLo : Nat
  price : Int
  qty : Int
  deriving DecidableEq, Repr

def FillReport.of (fill : Resting × Int) : FillReport :=
  ⟨fill.1.userId, fill.1.orderIdHi, fill.1.orderIdLo, fill.1.price, fill.2⟩

def Event.fill? : Event → Option FillReport
  | .fill _ _ _ makerUserId _ price qty _ makerOrderIdHi makerOrderIdLo _ _ _ =>
    some ⟨makerUserId, makerOrderIdHi, makerOrderIdLo, price, qty⟩
  | _ => none

/-- The end of the incoming order that an event reports.  An `OrderDone` with a handle is a
maker's. -/
def Event.ending? : Event → Option Ending
  | .orderDone handle _ _ _ reason filledQty remainingQty _ _ =>
    if handle = NONE then some (.done reason filledQty remainingQty) else none
  | .orderInserted _ _ _ _ qty _ _ => some (.inserted qty)
  | .orderFailed _ reason _ _ => some (.failed reason)
  | _ => none

@[ext]
structure Exchange where
  orders : Side → List Resting
  sorted : ∀ s, Sorted (fun o => s.key o.price) (orders s)

/-- The fills of an incoming order, how it ends, and the exchange afterwards. -/
structure Submission where
  fills : List (Resting × Int)
  ending : Ending
  book : Exchange

namespace Exchange

variable (x : Exchange) (order : IncomingOrder)

def empty : Exchange :=
  ⟨fun _ => [], fun _ => List.Pairwise.nil⟩

def size : Nat :=
  (x.orders .buy).length + (x.orders .sell).length

def totalQty : Int :=
  total (x.orders .buy) + total (x.orders .sell)

def qtyAt (s : Side) (price : Int) : Int :=
  total ((x.orders s).filter fun o => o.price = price)

def Uncrossed : Prop :=
  ∀ o ∈ x.orders .buy, ∀ o' ∈ x.orders .sell, o.price < o'.price

def setSide (s : Side) (l : List Resting) (hl : Sorted (fun o => s.key o.price) l) : Exchange where
  orders := update x.orders s l
  sorted := fun u => by
    by_cases hu : u = s
    · subst hu
      rw [update_self]
      exact hl
    · rw [update_of_ne hu]
      exact x.sorted u

def makers : List Resting :=
  (x.orders order.side.opposite).filter fun o => order.side.within o.price order.price

/-- Consume the makers: up to the remaining quantity, and at most `MAX_MAKERS_PER_ORDER` of them. -/
def consumed : Outcome Resting :=
  consume maxMakersPerOrder order.remainingQty (x.makers order)

theorem sorted_consumed : Sorted (fun o => order.side.opposite.key o.price)
    ((x.consumed order).rest ++
      (x.orders order.side.opposite).filter fun o => ¬ order.side.within o.price order.price) := by
  have hsorted := x.sorted order.side.opposite
  refine pairwise_append.2 ⟨sorted_consume (fun _ _ => rfl) (hsorted.filter _),
    hsorted.filter _, fun a ha b hb => ?_⟩
  have hmakers : ∀ o ∈ x.makers order, order.side.within o.price order.price = true :=
    fun o ho => (mem_filter.1 ho).2
  have hin : order.side.within a.price order.price = true :=
    forall_rest (fun _ _ h => h) hmakers a ha
  have hout := (mem_filter.1 hb).2
  have hlt : order.side.opposite.key order.price < order.side.opposite.key b.price := by
    by_contra hle
    rw [Side.within_iff.2 (not_lt.1 hle)] at hout
    exact absurd hout (by decide)
  exact (Side.within_iff.1 hin).trans hlt.le

def matched : Exchange :=
  x.setSide order.side.opposite _ (x.sorted_consumed order)

def add (o : Resting) : Exchange :=
  x.setSide o.side (place (fun o' => o.side.key o'.price) o (x.orders o.side))
    ((x.sorted o.side).place o)

def fillable : Bool :=
  order.remainingQty ≤ total ((x.makers order).take maxMakersPerOrder)

def trade : Submission :=
  let o := x.consumed order
  if o.left ≤ 0 then
    ⟨o.fills, .done .filled order.remainingQty 0, x.matched order⟩
  else if o.budget = 0 ∧ o.rest ≠ [] then
    ⟨o.fills, .done .matchLimit (order.remainingQty - o.left) o.left, x.matched order⟩
  else
    match order.tif with
    | .ioc => ⟨o.fills, .done .expired (order.remainingQty - o.left) o.left, x.matched order⟩
    | .fok => ⟨o.fills, .failed .fillOrKill, x.matched order⟩
    | .gtc => ⟨o.fills, .inserted o.left, (x.matched order).add (order.setRemaining o.left).resting⟩

/-- Submit an order whose fill-or-kill check says `fits`: a post-only order that crosses and a
fill-or-kill order that does not fit are turned away, every other one trades. -/
def submitIf (fits : Bool) : Submission :=
  if order.postOnly ∧ x.makers order ≠ [] then
    ⟨[], .done .postOnly 0 order.remainingQty, x⟩
  else if order.tif = .fok ∧ ¬ fits then
    ⟨[], .failed .fillOrKill, x⟩
  else
    x.trade order

/-- Submit an order; a fill-or-kill order trades if the makers it may consume hold its quantity. -/
def submit : Submission :=
  x.submitIf order (x.fillable order)

variable {x order}
  {s : Side} {o : Resting}

theorem orders_matched : (x.matched order).orders order.side.opposite = (x.consumed order).rest ++
      (x.orders order.side.opposite).filter fun o => ¬ order.side.within o.price order.price :=
  update_self ..

theorem orders_matched_of_ne (hs : s ≠ order.side.opposite) :
    (x.matched order).orders s = x.orders s :=
  update_of_ne hs ..

theorem orders_add (o : Resting) : (x.add o).orders o.side =
    place (fun o' => o.side.key o'.price) o (x.orders o.side) :=
  update_self ..

theorem orders_add_of_ne (hs : s ≠ o.side) : (x.add o).orders s = x.orders s :=
  update_of_ne hs ..

theorem size_eq (x : Exchange) (s : Side) :
    x.size = (x.orders s).length + (x.orders s.opposite).length := by
  cases s with
  | buy => rfl
  | sell => exact Nat.add_comm _ _

theorem totalQty_eq (x : Exchange) (s : Side) :
    x.totalQty = total (x.orders s) + total (x.orders s.opposite) := by
  cases s with
  | buy => rfl
  | sell => exact Int.add_comm _ _

theorem size_add (x : Exchange) (o : Resting) : (x.add o).size = x.size + 1 := by
  have hne : o.side.opposite ≠ o.side := by cases o.side <;> decide
  have hlen := (perm_place (fun o' => o.side.key o'.price) o (x.orders o.side)).length_eq
  rw [size_eq _ o.side, size_eq x o.side, orders_add, orders_add_of_ne hne, hlen, length_cons]
  omega

theorem size_matched_le (x : Exchange) (order : IncomingOrder) :
    (x.matched order).size ≤ x.size := by
  have hne : order.side.opposite.opposite ≠ order.side.opposite := by
    cases order.side <;> decide
  have hrest : (x.consumed order).rest.length ≤ (x.makers order).length := consume_rest_length_le
  have hsplit := (filter_append_perm (fun o => order.side.within o.price order.price)
    (x.orders order.side.opposite)).length_eq
  rw [length_append] at hsplit
  rw [size_eq _ order.side.opposite, size_eq x order.side.opposite, orders_matched,
    orders_matched_of_ne hne, length_append]
  simp only [decide_not, Bool.decide_eq_true]
  unfold makers at hrest
  omega

theorem totalQty_matched (x : Exchange) (order : IncomingOrder) :
    (x.matched order).totalQty + order.remainingQty = x.totalQty + (x.consumed order).left := by
  have hne : order.side.opposite.opposite ≠ order.side.opposite := by
    cases order.side <;> decide
  have hconsume := total_consume maxMakersPerOrder order.remainingQty (x.makers order)
  have hsplit := total_perm (filter_append_perm
    (fun o => order.side.within o.price order.price) (x.orders order.side.opposite))
  have hnot : (fun o : Resting => decide ¬ order.side.within o.price order.price = true) =
      fun o => !order.side.within o.price order.price := by
    funext o
    cases order.side.within o.price order.price <;> rfl
  rw [total_append] at hsplit
  rw [totalQty_eq _ order.side.opposite, totalQty_eq x order.side.opposite, orders_matched,
    orders_matched_of_ne hne, total_append, hnot]
  unfold consumed makers at *
  omega

theorem totalQty_add (x : Exchange) (o : Resting) :
    (x.add o).totalQty = x.totalQty + o.remainingQty := by
  have hne : o.side.opposite ≠ o.side := by cases o.side <;> decide
  have htotal := total_perm (perm_place (fun o' => o.side.key o'.price) o (x.orders o.side))
  rw [totalQty_eq _ o.side, totalQty_eq x o.side, orders_add, orders_add_of_ne hne, htotal,
    total_cons]
  show o.remainingQty + _ + _ = _
  omega

theorem totalQty_trade_le (hqty : 0 ≤ order.remainingQty)
    (hpos : ∀ o ∈ x.makers order, 0 < o.remainingQty) :
    (x.trade order).book.totalQty ≤ x.totalQty + order.remainingQty := by
  have hmatched := x.totalQty_matched order
  have hleft : (x.consumed order).left ≤ order.remainingQty := consume_left_le hqty hpos
  unfold Exchange.trade
  simp only
  split_ifs with hfilled hlimit
  · show (x.matched order).totalQty ≤ _
    omega
  · show (x.matched order).totalQty ≤ _
    omega
  · cases order.tif with
    | ioc | fok =>
      show (x.matched order).totalQty ≤ _
      omega
    | gtc =>
      have hadd :=
        (x.matched order).totalQty_add (order.setRemaining (x.consumed order).left).resting
      have hqty : (order.setRemaining (x.consumed order).left).resting.remainingQty =
          (x.consumed order).left := rfl
      show ((x.matched order).add _).totalQty ≤ _
      omega

theorem fills_trade (x : Exchange) (order : IncomingOrder) :
    (x.trade order).fills = (x.consumed order).fills := by
  unfold trade
  simp only
  split_ifs
  · rfl
  · rfl
  · cases order.tif <;> rfl

theorem ending_trade_iff (x : Exchange) (order : IncomingOrder) :
    (x.trade order).ending = .done .filled order.remainingQty 0 ↔ (x.consumed order).left ≤ 0 := by
  unfold trade
  simp only
  split_ifs with hfilled hlimit
  · simp only [hfilled]
  · simp [hfilled]
  · cases order.tif <;> simp [hfilled]

theorem mem_rest_of_mem_trade (ho : o ∈ (x.trade order).book.orders order.side.opposite)
    (hwithin : order.side.within o.price order.price = true) : o ∈ (x.consumed order).rest := by
  have hmatched : o ∈ (x.matched order).orders order.side.opposite := by
    unfold trade at ho
    simp only at ho
    split_ifs at ho with hfilled hlimit
    · exact ho
    · exact ho
    · cases htif : order.tif with
      | ioc | fok => simpa only [htif] using ho
      | gtc =>
        simp only [htif] at ho
        rwa [orders_add_of_ne (by cases hs : order.side <;> simp [IncomingOrder.resting,
          IncomingOrder.setRemaining, hs])] at ho
  rw [orders_matched] at hmatched
  rcases mem_append.1 hmatched with hrest | hout
  · exact hrest
  · exact absurd hwithin (of_decide_eq_true (mem_filter.1 hout).2)

theorem fills_le_rest_trade {f : Resting × Int} (hf : f ∈ (x.consumed order).fills)
    (ho : o ∈ (x.consumed order).rest) :
    order.side.opposite.key f.1.price ≤ order.side.opposite.key o.price :=
  fills_le_rest (fun _ _ => rfl) ((x.sorted order.side.opposite).filter _) f hf o ho

theorem rest_eq_nil (hleft : 0 < (x.consumed order).left)
    (hlimit : ¬ ((x.consumed order).budget = 0 ∧ (x.consumed order).rest ≠ [])) :
    (x.consumed order).rest = [] := by
  rcases consume_rest maxMakersPerOrder order.remainingQty (x.makers order) with h | h | h
  · exact h
  · by_contra hne
    exact hlimit ⟨h, hne⟩
  · exact absurd hleft (not_lt.2 h)

theorem exists_of_mem_matched (ho : o ∈ (x.matched order).orders s) :
    ∃ o₀ ∈ x.orders s, o₀.price = o.price := by
  by_cases hs : s = order.side.opposite
  · subst hs
    rw [orders_matched] at ho
    rcases mem_append.1 ho with hmem | hmem
    · have hmakers : ∀ o ∈ x.makers order, ∃ o₀ ∈ x.orders order.side.opposite,
          o₀.price = o.price := fun o ho => ⟨o, (mem_filter.1 ho).1, rfl⟩
      exact forall_rest (fun _ _ h => h) hmakers o hmem
    · exact ⟨o, (mem_filter.1 hmem).1, rfl⟩
  · rw [orders_matched_of_ne hs] at ho
    exact ⟨o, ho, rfl⟩

theorem Uncrossed.matched (h : x.Uncrossed) : (x.matched order).Uncrossed := by
  intro o ho o' ho'
  obtain ⟨o₀, ho₀, hp⟩ := exists_of_mem_matched ho
  obtain ⟨o₀', ho₀', hp'⟩ := exists_of_mem_matched ho'
  rw [← hp, ← hp']
  exact h o₀ ho₀ o₀' ho₀'

theorem mem_add {o' : Resting} :
    o' ∈ (x.add o).orders s ↔ o' ∈ x.orders s ∨ s = o.side ∧ o' = o := by
  by_cases hs : s = o.side
  · subst hs
    rw [orders_add, mem_place, or_comm, eq_self_iff_true, true_and]
  · rw [orders_add_of_ne hs]
    simp [hs]

theorem Uncrossed.trade (h : x.Uncrossed) : (x.trade order).book.Uncrossed := by
  unfold Exchange.trade
  simp only
  split_ifs with hfilled hlimit
  · exact h.matched
  · exact h.matched
  · cases order.tif with
    | ioc | fok => exact h.matched
    | gtc =>
      -- What is left of the opposite side is beyond the limit.
      have hnil := rest_eq_nil (not_le.1 hfilled) hlimit
      have hbeyond : ∀ o ∈ (x.matched order).orders order.side.opposite,
          ¬ order.side.within o.price order.price := by
        intro o ho
        rw [orders_matched, hnil] at ho
        exact of_decide_eq_true (mem_filter.1 ho).2
      intro o ho o' ho'
      rcases mem_add.1 ho with ho | ⟨hside, rfl⟩
      · rcases mem_add.1 ho' with ho' | ⟨hside, rfl⟩
        · exact h.matched o ho o' ho'
        · have hsell : order.side = .sell := hside.symm
          have := hbeyond o (by rw [hsell]; exact ho)
          rw [hsell] at this
          have hlt : o.price < order.price := by simpa [Side.within] using this
          exact hlt
      · rcases mem_add.1 ho' with ho' | ⟨hside', rfl⟩
        · have hbuy : order.side = .buy := hside.symm
          have := hbeyond o' (by rw [hbuy]; exact ho')
          rw [hbuy] at this
          have hlt : order.price < o'.price := by simpa [Side.within] using this
          exact hlt
        · exact absurd (hside.trans hside'.symm) (by decide)

structure Withdrawn (x : Exchange) (o : Resting) (x' : Exchange) : Prop where
  side : ∃ o₁ o₂, x.orders o.side = o₁ ++ o :: o₂ ∧ x'.orders o.side = o₁ ++ o₂
  other : ∀ s, s ≠ o.side → x'.orders s = x.orders s

namespace Withdrawn

variable {x x' : Exchange} {o o' : Resting}

theorem mem (h : Withdrawn x o x') {s : Side} (ho' : o' ∈ x'.orders s) : o' ∈ x.orders s := by
  by_cases hs : s = o.side
  · subst hs
    obtain ⟨_, _, hx, hx'⟩ := h.side
    rw [hx'] at ho'
    rw [hx]
    rcases mem_append.1 ho' with hmem | hmem
    · exact mem_append_left _ hmem
    · exact mem_append_right _ (mem_cons_of_mem _ hmem)
  · rwa [h.other s hs] at ho'

theorem totalQty (h : Withdrawn x o x') : x'.totalQty + o.remainingQty = x.totalQty := by
  have hne : o.side.opposite ≠ o.side := by cases o.side <;> decide
  obtain ⟨o₁, o₂, hx, hx'⟩ := h.side
  rw [totalQty_eq _ o.side, totalQty_eq x o.side, hx, hx', h.other _ hne,
    total_append, total_append]
  show _ = total o₁ + (o.remainingQty + total o₂) + _
  omega

end Withdrawn

end Exchange

namespace Orderbook

def resting (b : Orderbook) : List Resting :=
  Buckets.contents b.compression.totalSlots fun t => (b.levelOrders t).map OrderSlot.resting

def exchange (b : Orderbook) : Exchange where
  orders s := arrange (fun o => s.key o.price) (b.resting.filter fun o => o.side = s)
  sorted _ := sorted_arrange _ _

end Orderbook

end Rsx.Book
