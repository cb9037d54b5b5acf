import Rsx.Book.Matching
import Rsx.Book.Migration
import Rsx.Lib.Run
import Rsx.Matching.Dedup

/-!
# The matching engine

`order.rs`, `cancel.rs` and the loop of `cast_loop.rs`: a book, the index that finds a resting order
by its id, the dedup window and the log.  The engine is one thread, so a run is a list of actions.
-/

namespace Rsx.Matching

open Function Book

/-- The log as the writer sees it: every record with its sequence number. -/
structure WalWriter where
  nextSeq : Nat := 1
  records : List (Nat × Record) := []
  deriving DecidableEq, Repr

namespace WalWriter

def append (w : WalWriter) (record : Record) : WalWriter where
  nextSeq := w.nextSeq + 1
  records := w.records ++ [(w.nextSeq, record)]

def appendAll (w : WalWriter) (records : List Record) : WalWriter :=
  records.foldl append w

def lastSeq (w : WalWriter) : Nat :=
  w.nextSeq - 1

end WalWriter

def slotFlags (book : Orderbook) (handle : Nat) : Bool × TimeInForce :=
  if handle = NONE then (false, .gtc)
  else ((book.orders.get handle).reduceOnly, (book.orders.get handle).tif)

def eventRecord (book : Orderbook) (tsNs : Nat) : Event → Record
  | .fill _ makerTif makerReduceOnly makerUserId takerUserId price qty side makerOrderIdHi
      makerOrderIdLo takerOrderIdHi takerOrderIdLo _ =>
      .fill
        { tsNs := tsNs, takerUserId := takerUserId, makerUserId := makerUserId
          takerOrderIdHi := takerOrderIdHi, takerOrderIdLo := takerOrderIdLo
          makerOrderIdHi := makerOrderIdHi, makerOrderIdLo := makerOrderIdLo
          price := price, qty := qty, takerSide := side
          reduceOnly := makerReduceOnly, tif := makerTif }
  | .orderInserted handle userId side price qty orderIdHi orderIdLo =>
    let (reduceOnly, tif) := slotFlags book handle
    .orderInserted tsNs userId orderIdHi orderIdLo price qty side reduceOnly tif
  | .orderCancelled handle userId remainingQty orderIdHi orderIdLo =>
    let (reduceOnly, tif) := slotFlags book handle
    .orderCancelled tsNs userId orderIdHi orderIdLo remainingQty reduceOnly tif
  | .orderDone _ tif reduceOnly userId reason filledQty remainingQty orderIdHi orderIdLo =>
    let (finalStatus, cancelReason) := doneStatusAndReason reason
    .orderDone tsNs userId orderIdHi orderIdLo filledQty remainingQty finalStatus reduceOnly tif
      cancelReason
  | .orderFailed userId reason orderIdHi orderIdLo =>
    .orderFailed tsNs userId orderIdHi orderIdLo (failureReasonCode reason)
  | .bbo bidPx bidQty askPx askQty => .bbo tsNs bidPx bidQty askPx askQty

def publishEvents (wal : WalWriter) (book : Orderbook) (tsNs : Nat) : WalWriter :=
  wal.appendAll (book.eventBuf.map (eventRecord book tsNs))

def indexEvent (index : OrderKey → Option Nat) : Event → OrderKey → Option Nat
  | .orderInserted handle userId _ _ _ orderIdHi orderIdLo =>
    update index (userId, orderIdHi, orderIdLo) (some handle)
  | .orderDone _ _ _ userId _ _ _ orderIdHi orderIdLo =>
    update index (userId, orderIdHi, orderIdLo) none
  | _ => index

def updateOrderIndex (events : List Event) (index : OrderKey → Option Nat) :
    OrderKey → Option Nat :=
  events.foldl indexEvent index

def maybeRecenter (book : Orderbook) : Option Orderbook :=
  if book.bestTick .buy = NONE ∨ book.bestTick .sell = NONE then some book
  else
    let mid := (wrap64 (book.bestPx .buy + book.bestPx .sell)).tdiv 2
    if book.shouldRecenter mid then book.recenterNow mid else some book

structure Engine where
  book : Orderbook
  orderIndex : OrderKey → Option Nat := fun _ => none
  dedup : DedupTracker := {}
  wal : WalWriter := {}

def bookInitialMidPrice : Int := 50000

namespace Engine

def new (config : BookConfig) (capacity : Nat) : Engine where
  book := Orderbook.new config capacity bookInitialMidPrice

/-- `process_order`.  `acceptNs` and `publishNs` are the clock when the order is accepted and when
its events are written. -/
def processOrder (e : Engine) (msg : OrderMessage) (acceptNs publishNs : Nat) : Option Engine :=
  let (isDup, dedup) := e.dedup.checkAndInsert msg.key
  if isDup then
    some { e with
      dedup := dedup
      wal := e.wal.append (.orderFailed acceptNs msg.userId msg.orderIdHi msg.orderIdLo
        (failureReasonCode .duplicate)) }
  else do
    let wal := e.wal.append (.orderAccepted (msg.accepted acceptNs))
    let book ← e.book.processNewOrder (toIncoming msg)
    let wal := publishEvents wal book publishNs
    let orderIndex := updateOrderIndex book.eventBuf e.orderIndex
    let book ← maybeRecenter book
    some { book := book, orderIndex := orderIndex, dedup := dedup, wal := wal }

def processCancel (e : Engine) (request : CancelRequest) (publishNs : Nat) : Option Engine :=
  match e.orderIndex request.key with
  | none => some e
  | some found =>
    let slot := e.book.orders.get found
    let (cancelled, book) := ({ e.book with eventBuf := [] } : Orderbook).cancelOrderChecked found
      request.userId request.orderIdHi request.orderIdLo
    if cancelled then do
      let book ← book.emit (.orderCancelled found request.userId slot.remainingQty
        request.orderIdHi request.orderIdLo)
      let book ← book.emit (.orderDone found slot.tif slot.reduceOnly request.userId .userCancel 0
        slot.remainingQty request.orderIdHi request.orderIdLo)
      let book ←
        if book.bestTick .buy ≠ e.book.bestTick .buy ∨ book.bestTick .sell ≠ e.book.bestTick .sell ∨
            book.bestPx .buy ≠ e.book.bestPx .buy ∨ book.bestPx .sell ≠ e.book.bestPx .sell then
          book.emitBbo
        else some book
      some { e with
        book := book
        orderIndex := updateOrderIndex book.eventBuf e.orderIndex
        wal := publishEvents e.wal book publishNs }
    else
      some { e with book := book }

/-- One config of `apply_due_configs`.  The record does not carry the tick and lot size. -/
def applyConfig (e : Engine) (config : BookConfig) (tsNs configVersion effectiveAtMs : Nat) :
    Engine :=
  { e with
    book := e.book.updateConfig config
    wal := e.wal.append (.configApplied tsNs configVersion effectiveAtMs) }

end Engine

/-- What the loop does: a request that arrived, or one of its housekeeping tasks. -/
inductive Action
  | order (msg : OrderMessage) (acceptNs publishNs : Nat)
  | cancel (request : CancelRequest) (publishNs : Nat)
  | maintainUsers (nowNs : Nat)
  | cleanup (now : Nat)
  | applyConfig (config : BookConfig) (tsNs configVersion effectiveAtMs : Nat)
  deriving DecidableEq, Repr

def Action.limit (userId orderIdLo side reduceOnly : Nat) (price qty : Int)
    (h : price ≤ i64Max := by decide) : Action :=
  .order (OrderMessage.limit userId orderIdLo side reduceOnly price qty h) 0 0

def Engine.step (e : Engine) : Action → Option Engine
  | .order msg acceptNs publishNs => e.processOrder msg acceptNs publishNs
  | .cancel request publishNs => e.processCancel request publishNs
  | .maintainUsers nowNs => some { e with book := e.book.maintainUsers nowNs false }
  | .cleanup now => some { e with dedup := (e.dedup.refreshClock now).maybeCleanup }
  | .applyConfig config tsNs configVersion effectiveAtMs =>
    some (e.applyConfig config tsNs configVersion effectiveAtMs)

end Rsx.Matching
