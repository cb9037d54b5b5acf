import Rsx.Risk.Detached

/-!
# How the records of a matching engine reach the shard

The live loop of `cast_loop.rs`, and `apply_record` and `apply_me_replay_record` of `replay.rs`,
which warm catch-up and gap replay use.  A record carries what the shard reads of it.  -/

namespace Rsx.Risk

open Book

structure MeFill where
  takerUserId : Nat
  makerUserId : Nat
  takerOrderId : OrderId
  makerOrderId : OrderId
  price : Int
  qty : Int
  takerSide : Side
  tsNs : Nat := 0
  deriving DecidableEq, Repr

structure MeAccepted where
  userId : Nat
  orderId : OrderId
  price : Int
  qty : Int
  reduceOnly : Bool := false
  deriving DecidableEq, Repr

inductive MeBody
  | fill (fill : MeFill)
  | bbo (bidPx bidQty askPx askQty : Int)
  | orderAccepted (order : MeAccepted)
  | orderInserted (userId : Nat) (orderId : OrderId)
  | orderDone (userId : Nat) (orderId : OrderId)
  | orderFailed (userId : Nat) (orderId : OrderId) (reason : Nat)
  | orderCancelled (userId : Nat) (orderId : OrderId)
  | configApplied (configVersion : Nat)
  deriving DecidableEq, Repr

structure MeRecord where
  symbolId : Nat
  seq : Nat
  body : MeBody
  deriving DecidableEq, Repr

def MeFill.toFillEvent (fill : MeFill) (symbolId seq : Nat) : FillEvent where
  seq := seq
  symbolId := symbolId
  takerUserId := fill.takerUserId
  makerUserId := fill.makerUserId
  price := fill.price
  qty := fill.qty
  takerSide := fill.takerSide
  timestampNs := fill.tsNs

namespace Shard

variable {s : Shard}

def applyRecord (s : Shard) (record : MeRecord) : Shard :=
  match record.body with
  | .fill fill => s.processFill (fill.toFillEvent record.symbolId record.seq)
  | .orderDone userId orderId => s.releaseFrozenForOrder userId orderId
  | .orderFailed userId orderId _ => s.releaseFrozenForOrder userId orderId
  | .orderAccepted order =>
    if s.userInShard order.userId ∧ order.reduceOnly = false then
      s.replayFreezeOrder order.userId order.orderId order.price order.qty record.symbolId
    else s
  | .bbo bidPx bidQty askPx askQty =>
    s.processBbo ⟨record.seq, record.symbolId, bidPx, bidQty, askPx, askQty⟩
  | .configApplied configVersion => s.processConfigApplied record.symbolId configVersion
  | .orderInserted .. => s
  | .orderCancelled .. => s

def receive (s : Shard) (record : MeRecord) : Shard :=
  match record.body with
  | .fill fill => s.processFill (fill.toFillEvent record.symbolId record.seq)
  | .orderDone userId orderId => s.releaseFrozenForOrder userId orderId
  | .orderFailed userId orderId _ => s.releaseFrozenForOrder userId orderId
  | .orderAccepted order =>
    if order.reduceOnly = false then
      s.confirmFreeze order.userId order.orderId record.symbolId
    else s
  | .bbo bidPx bidQty askPx askQty =>
    s.stashBbo ⟨record.seq, record.symbolId, bidPx, bidQty, askPx, askQty⟩
  | .configApplied configVersion => s.processConfigApplied record.symbolId configVersion
  | .orderInserted .. => s
  | .orderCancelled .. => s

theorem receive_detached (s : Shard) (record : MeRecord) :
    s.detached.receive record = (s.receive record).detached := by
  unfold receive
  cases record.body with
  | fill => exact processFill_detached ..
  | orderDone | orderFailed => exact releaseFrozenForOrder_detached ..
  | orderAccepted =>
    rw [apply_ite detached]
    exact if_congr Iff.rfl (confirmFreeze_detached ..) rfl
  | bbo => exact stashBbo_detached ..
  | configApplied => exact processConfigApplied_detached ..
  | orderInserted | orderCancelled => rfl

end Shard

/-! ## The node -/

/-- A record forwarded to the gateway, with the fees that were stamped on a fill. -/
structure Forwarded where
  record : MeRecord
  fees : Option (Int × Int) := none
  deriving DecidableEq, Repr

/-- `stamp_fill_fees`: the fees as `i32`. -/
def Shard.stampFillFees (s : Shard) (symbolId : Nat) : Option (Int × Int) :=
  if s.maxSymbols ≤ symbolId then none
  else some ((s.takerFeeBps symbolId).bmod 4294967296, (s.makerFeeBps symbolId).bmod 4294967296)

def Shard.forward (s : Shard) (record : MeRecord) : List Forwarded :=
  match record.body with
  | .fill _ => [⟨record, s.stampFillFees record.symbolId⟩]
  | .orderDone .. => [⟨record, none⟩]
  | .orderInserted .. => [⟨record, none⟩]
  | .orderFailed .. => [⟨record, none⟩]
  | .configApplied .. => [⟨record, none⟩]
  | .orderAccepted .. => []
  | .orderCancelled .. => []
  | .bbo .. => []

/-- A node: its shard, what it forwarded, and the newest quote it received of each symbol. -/
structure Node where
  shard : Shard
  forwarded : List Forwarded := []
  newest : Nat → Option BboUpdate := fun _ => none

inductive IngestOp
  | live (record : MeRecord)
  | drained (record : MeRecord)
  | order (request : OrderRequest)
  | mark (symbolId : Nat) (price : Int)
  | config (update : SymbolRiskConfig)
  | tick (rings : ShardRings) (nowSecs : Nat) (ids : Nat → OrderId)

def IngestOp.asLive : IngestOp → IngestOp
  | .drained record => .live record
  | op => op

namespace Node

def noteQuote (node : Node) (record : MeRecord) : Nat → Option BboUpdate :=
  match record.body with
  | .bbo bidPx bidQty askPx askQty =>
    Function.update node.newest record.symbolId
      (some ⟨record.seq, record.symbolId, bidPx, bidQty, askPx, askQty⟩)
  | _ => node.newest

/-- One turn of the live loop, with `apply_me_replay_record` for the records of a gap. -/
def ingest (node : Node) : IngestOp → Node
  | .live record =>
    let shard := node.shard.receive record
    ⟨shard, node.forwarded ++ shard.forward record, node.noteQuote record⟩
  | .drained record =>
    let shard := node.shard.applyRecord record
    ⟨shard, node.forwarded ++ shard.forward record, node.noteQuote record⟩
  | .order request => { node with shard := (node.shard.processOrder request).1 }
  | .mark symbolId price => { node with shard := node.shard.updateMark symbolId price }
  | .config update =>
    { node with shard :=
        { node.shard with configUpdates := node.shard.configUpdates ++ [update] } }
  | .tick rings nowSecs ids => { node with shard := (node.shard.tick rings nowSecs ids).1 }

end Node

end Rsx.Risk
