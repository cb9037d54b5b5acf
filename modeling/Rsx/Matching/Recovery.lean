import Rsx.Book.Snapshot
import Rsx.Cast.Wal
import Rsx.Matching.Engine

/-!
# Recovery of the matching engine

`recovery.rs` and the replay of `wal.rs`: a book is restored from the checkpoint, or started empty,
and the accepted orders and the cancels of the log after it are executed again.  The outer `none` is
a panic of the process.
-/

namespace Rsx.Matching

open Function Book Cast

structure BootConfig where
  config : BookConfig
  bookCapacity : Nat
  deriving DecidableEq, Repr

structure MatchingCheckpoint where
  walSeq : Nat
  book : BookSnapshot

def MatchingCheckpoint.capture (book : Orderbook) (walSeq : Nat) :
    Except SnapshotError MatchingCheckpoint :=
  match book.capture with
  | .error error => .error error
  | .ok snapshot => .ok ⟨walSeq, snapshot⟩

/-- `RecoveryError`.  The records of the model always decode. -/
inductive RecoveryError
  | checkpointLoad (source : SnapshotError)
  | replayRead (startSeq : Nat)
  | dedupRead
  deriving DecidableEq, Repr

structure Replay where
  book : Orderbook
  orderIndex : OrderKey → Option Nat
  lastSeq : Nat

/-- The effect of one record.  A cancel goes by the handle of the index without a check, and the
events of the match only keep the index. -/
def Replay.apply (r : Replay) : Record → Option Replay
  | .orderAccepted order => do
      let book ← r.book.processNewOrder order.toIncoming
      some { r with book := book, orderIndex := updateOrderIndex book.eventBuf r.orderIndex }
  | .orderCancelled _ userId orderIdHi orderIdLo _ _ _ =>
    let key : OrderKey := (userId, orderIdHi, orderIdLo)
    match r.orderIndex key with
    | none => some r
    | some handle => some
        { r with
          book := (r.book.cancelOrder handle).2
          orderIndex := update r.orderIndex key none }
  | _ => some r

def Replay.step (r : Replay) (entry : Nat × Record) : Option Replay :=
  Replay.apply { r with lastSeq := max r.lastSeq entry.1 } entry.2

def replayWalAfterSnapshot (book : Orderbook) (orderIndex : OrderKey → Option Nat)
    (dir : WalDir Record) (startSeq : Nat) : Option (Except RecoveryError Replay) :=
  match dir.readFrom startSeq with
  | none => some (.error (.replayRead startSeq))
  | some records =>
    (run Replay.step ⟨book, orderIndex, startSeq - 1⟩ records).map .ok

def indexSlot (book : Orderbook) (index : OrderKey → Option Nat) (handle : Nat) :
    OrderKey → Option Nat :=
  let slot := book.orders.get handle
  if slot.active then
    update index (slot.userId, slot.orderIdHi, slot.orderIdLo) (some handle)
  else index

def rebuildOrderIndexFromBook (book : Orderbook) : OrderKey → Option Nat :=
  (List.range book.orders.bumpNext).foldl (indexSlot book) fun _ => none

/-- One record of `rebuild_dedup_window`.  `bootNs` is the host's clock since it booted. -/
def seedRecord (nowUnixNs bootNs : Nat) (dedup : DedupTracker) (entry : Nat × Record) :
    DedupTracker :=
  match entry.2 with
  | .orderAccepted order =>
    dedup.seed bootNs (order.userId, order.orderIdHi, order.orderIdLo) (nowUnixNs - order.tsNs)
  | _ => dedup

/-- `rebuild_dedup_window`: from the earliest file on. -/
def rebuildDedupWindow (dedup : DedupTracker) (dir : WalDir Record) (nowUnixNs bootNs : Nat) :
    Except RecoveryError DedupTracker :=
  match dir.readFrom 0 with
  | none => .error .dedupRead
  | some records => .ok (records.foldl (seedRecord nowUnixNs bootNs) dedup)

structure Recovered where
  book : Orderbook
  orderIndex : OrderKey → Option Nat
  dedup : DedupTracker
  nextSeq : Nat
  checkpointWalSeq : Nat

/-- Where the replay starts from: the book, its index and the sequence number the checkpoint
covers. -/
def loadBook (boot : BootConfig) (checkpoint : Option MatchingCheckpoint) :
    Except RecoveryError (Orderbook × (OrderKey → Option Nat) × Nat) :=
  match checkpoint with
  | none => .ok (Orderbook.new boot.config boot.bookCapacity bookInitialMidPrice, fun _ => none, 0)
  | some checkpoint =>
    match restore checkpoint.book boot.bookCapacity with
    | .error source => .error (.checkpointLoad source)
    | .ok book => .ok (book, rebuildOrderIndexFromBook book, checkpoint.walSeq)

def recover (boot : BootConfig) (checkpoint : Option MatchingCheckpoint) (dir : WalDir Record)
    (nowUnixNs bootNs : Nat) : Option (Except RecoveryError Recovered) :=
  match loadBook boot checkpoint with
  | .error error => some (.error error)
  | .ok (book, orderIndex, checkpointWalSeq) => do
      match ← replayWalAfterSnapshot book orderIndex dir (checkpointWalSeq + 1) with
      | .error error => some (.error error)
      | .ok replay =>
        match rebuildDedupWindow { lastCleanup := bootNs, now := bootNs } dir nowUnixNs
            bootNs with
        | .error error => some (.error error)
        | .ok dedup => some (.ok
            { book := replay.book
              orderIndex := replay.orderIndex
              dedup := dedup
              nextSeq := replay.lastSeq + 1
              checkpointWalSeq := checkpointWalSeq })

end Rsx.Matching
