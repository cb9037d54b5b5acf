import Rsx.Marketdata.Shadow

/-!
# The market data server

`subscription.rs`, `state.rs` and `apply.rs` of `rsx-marketdata`: the shadow books of all symbols,
the subscriptions of the clients and the queues of frames that wait to be written to them.  A hash
map is a function, and a hash set is a list without duplicates.  -/

namespace Rsx.Marketdata

open Function Book

inductive MdFrame
  | bbo (update : BboUpdate)
  | snapshot (snapshot : L2Snapshot)
  | delta (delta : L2Delta)
  | trade (trade : TradeEvent)
  | heartbeat (timestampMs : Nat)
  deriving DecidableEq, Repr

/-! ## Subscriptions -/

def channelBbo : Nat := 1

def channelDepth : Nat := 2

def channelTrades : Nat := 4

structure ClientSubscription where
  symbols : Nat → Option Nat
  depth : Nat

structure SubscriptionManager where
  clients : Nat → Option ClientSubscription := fun _ => none
  symbolClients : Nat → List Nat := fun _ => []

namespace SubscriptionManager

variable (m : SubscriptionManager) (clientId symbolId : Nat)

/-- `subscribe`, with whether the subscription is new. -/
def subscribe (channels depth : Nat) : SubscriptionManager × Bool :=
  let entry := (m.clients clientId).getD { symbols := fun _ => none, depth := depth }
  ({ clients := update m.clients clientId
       (some { symbols := update entry.symbols symbolId (some channels), depth := depth })
     symbolClients := update m.symbolClients symbolId
       ((m.symbolClients symbolId).insert clientId) },
    (entry.symbols symbolId).isNone)

def unsubscribe : SubscriptionManager where
  clients := update m.clients clientId ((m.clients clientId).map fun sub =>
    { sub with symbols := update sub.symbols symbolId none })
  symbolClients := update m.symbolClients symbolId
    ((m.symbolClients symbolId).erase clientId)

def unsubscribeAll : SubscriptionManager :=
  match m.clients clientId with
  | none => m
  | some sub =>
    { clients := update m.clients clientId none
      symbolClients := fun symbolId =>
        if (sub.symbols symbolId).isSome then (m.symbolClients symbolId).erase clientId
        else m.symbolClients symbolId }

def clientsForSymbol : List Nat :=
  m.symbolClients symbolId

/-- `has_bbo`, `has_depth` and `has_trades` test one bit of the channels. -/
def hasChannel (channel : Nat) : Bool :=
  ((m.clients clientId).bind fun sub => sub.symbols symbolId).any fun channels =>
    channels &&& channel ≠ 0

def hasBbo : Bool :=
  m.hasChannel clientId symbolId channelBbo

def hasDepth : Bool :=
  m.hasChannel clientId symbolId channelDepth

def hasTrades : Bool :=
  m.hasChannel clientId symbolId channelTrades

def clientDepth : Nat :=
  (m.clients clientId).elim 10 ClientSubscription.depth

end SubscriptionManager

/-! ## Connections and books -/

structure ConnectionState where
  outbound : List MdFrame := []
  lastHeartbeatNs : Nat

/-- `MarketDataState`; the vectors have an entry for every symbol below `maxSymbols`. -/
structure MarketDataState where
  maxSymbols : Nat
  baseConfig : BookConfig
  bookCapacity : Nat
  midPriceDefault : Int
  nextConnId : Nat := 0
  connections : Nat → Option ConnectionState := fun _ => none
  subs : SubscriptionManager := {}
  books : Nat → Option ShadowBook := fun _ => none
  lastBbo : Nat → Option BboUpdate := fun _ => none
  gapCount : Nat := 0
  lastBookAccess : Nat → Nat := fun _ => 0

namespace MarketDataState

def new (maxSymbols : Nat) (baseConfig : BookConfig) (bookCapacity : Nat) (midPriceDefault : Int) :
    MarketDataState where
  maxSymbols := maxSymbols
  baseConfig := baseConfig
  bookCapacity := bookCapacity
  midPriceDefault := midPriceDefault

variable (st : MarketDataState)

def addConnection (now : Nat) : MarketDataState where
  __ := st
  nextConnId := st.nextConnId + 1
  connections := update st.connections st.nextConnId (some { lastHeartbeatNs := now })

def removeConnection (connId : Nat) : MarketDataState where
  __ := st
  connections := update st.connections connId none
  subs := st.subs.unsubscribeAll connId

def pushToClient (connId : Nat) (msg : MdFrame) (maxOutbound : Nat) : MarketDataState × Bool :=
  match st.connections connId with
  | some conn =>
    if maxOutbound ≤ conn.outbound.length then (st, false)
    else
      ({ st with
        connections := update st.connections connId
          (some { conn with outbound := conn.outbound ++ [msg] }) }, true)
  | none => (st, false)

def drainOutbound (connId : Nat) : MarketDataState × List MdFrame :=
  match st.connections connId with
  | some conn =>
    ({ st with
      connections := update st.connections connId (some { conn with outbound := [] }) },
      conn.outbound)
  | none => (st, [])

def snapshotMsg (symbolId depth : Nat) : Option L2Snapshot :=
  if symbolId < st.maxSymbols then
    match st.books symbolId with
    | some book => some (book.deriveL2Snapshot depth)
    | none => some { symbolId := symbolId, bids := [], asks := [], timestampNs := 0, seq := 0 }
  else none

/-- `ensure_book`; a new book is anchored at the hint when that is a price. -/
def ensureBook (now symbolId : Nat) (midPriceHint : Int) : MarketDataState :=
  if symbolId < st.maxSymbols then
    { st with
      books := match st.books symbolId with
        | some _ => st.books
        | none => update st.books symbolId
            (some (ShadowBook.new symbolId { st.baseConfig with symbolId := symbolId }
              st.bookCapacity (if 0 < midPriceHint then midPriceHint else st.midPriceDefault)))
      lastBookAccess := update st.lastBookAccess symbolId now }
  else st

def bookMut (now symbolId : Nat) : MarketDataState × Option ShadowBook :=
  if symbolId < st.maxSymbols then
    ({ st with lastBookAccess := update st.lastBookAccess symbolId now }, st.books symbolId)
  else (st, none)

def setBook (symbolId : Nat) (book : ShadowBook) : MarketDataState where
  __ := st
  books := update st.books symbolId (some book)

def evictBook (now ttlNs symbolId : Nat) : MarketDataState :=
  if (st.books symbolId).isNone then st
  else if st.lastBookAccess symbolId = 0 then st
  else if now - st.lastBookAccess symbolId < ttlNs then st
  else if st.subs.clientsForSymbol symbolId = [] then
    { st with
      books := update st.books symbolId none
      lastBookAccess := update st.lastBookAccess symbolId 0 }
  else st

def evictStaleBooks (now ttlNs : Nat) : MarketDataState :=
  (List.range st.maxSymbols).foldl (fun st symbolId => st.evictBook now ttlNs symbolId) st

def noteGap : MarketDataState where
  __ := st
  gapCount := st.gapCount + 1

/-- `resend_snapshot`; a full queue does without it. -/
def resendSnapshot (symbolId depth maxOutbound : Nat) : MarketDataState :=
  match st.snapshotMsg symbolId depth with
  | none => st
  | some snapshot =>
    (st.subs.clientsForSymbol symbolId).foldl (fun st clientId =>
      if st.subs.hasDepth clientId symbolId then
        (st.pushToClient clientId (.snapshot snapshot) maxOutbound).1
      else st) st

def resendAllSnapshots (depth maxOutbound : Nat) : MarketDataState :=
  (List.range st.maxSymbols).foldl (fun st symbolId =>
    if (st.books symbolId).isSome then st.resendSnapshot symbolId depth maxOutbound else st) st

/-- `send_snapshot_to_client`; what is queued is dropped. -/
def sendSnapshotToClient (clientId symbolId depth maxOutbound : Nat) : MarketDataState :=
  let st := { st with
    connections := update st.connections clientId
      ((st.connections clientId).map fun conn : ConnectionState => { conn with outbound := [] }) }
  match st.snapshotMsg symbolId depth with
  | some snapshot => (st.pushToClient clientId (.snapshot snapshot) maxOutbound).1
  | none => st

def broadcastHeartbeat (tsMs : Nat) : MarketDataState where
  __ := st
  connections := fun connId => (st.connections connId).map fun conn =>
    { conn with outbound := conn.outbound ++ [.heartbeat tsMs] }

def updateHeartbeat (now connId : Nat) : MarketDataState where
  __ := st
  connections := update st.connections connId
    ((st.connections connId).map fun conn => { conn with lastHeartbeatNs := now })

def timedOut (now timeoutNs : Nat) : List Nat :=
  (List.range st.nextConnId).filter fun connId =>
    (st.connections connId).any fun conn => timeoutNs ≤ now - conn.lastHeartbeatNs

def checkTimeouts (now timeoutNs : Nat) : MarketDataState :=
  (st.timedOut now timeoutNs).foldl removeConnection st

/-! ## Records -/

/-- A frame for a client; a full queue is replaced by a snapshot. -/
def pushOrSnapshot (clientId symbolId : Nat) (msg : MdFrame) (maxOutbound : Nat) :
    MarketDataState :=
  match st.pushToClient clientId msg maxOutbound with
  | (st, true) => st
  | (st, false) =>
    st.sendSnapshotToClient clientId symbolId (st.subs.clientDepth clientId) maxOutbound

/-- The best prices of a symbol, when they are not the last ones sent. -/
def noteBbo (symbolId : Nat) : Option BboUpdate → MarketDataState × Option BboUpdate
  | none => (st, none)
  | some bbo =>
    if st.lastBbo symbolId = some bbo then (st, none)
    else ({ st with lastBbo := update st.lastBbo symbolId (some bbo) }, some bbo)

def sendUpdates (symbolId : Nat) (delta : L2Delta) (bbo : Option BboUpdate) (maxOutbound : Nat)
    (clientId : Nat) : MarketDataState :=
  let st :=
    if st.subs.hasDepth clientId symbolId then
      st.pushOrSnapshot clientId symbolId (.delta delta) maxOutbound
    else st
  match bbo with
  | some update =>
    if st.subs.hasBbo clientId symbolId then
      (st.pushToClient clientId (.bbo update) maxOutbound).1
    else st
  | none => st

def broadcastUpdates (now symbolId : Nat) (side : Side) (price : Int) (maxOutbound : Nat) :
    Option MarketDataState :=
  match st.bookMut now symbolId with
  | (st, none) => some st
  | (st, some book) => do
      let delta ← book.deriveL2Delta side price
      let bbo ← book.deriveBbo
      let (st, bbo) := st.noteBbo symbolId bbo
      some ((st.subs.clientsForSymbol symbolId).foldl
        (fun st clientId => st.sendUpdates symbolId delta bbo maxOutbound clientId) st)

def broadcastTrade (symbolId : Nat) (trade : TradeEvent) (maxOutbound : Nat) : MarketDataState :=
  (st.subs.clientsForSymbol symbolId).foldl (fun st clientId =>
    if st.subs.hasTrades clientId symbolId then
      st.pushOrSnapshot clientId symbolId (.trade trade) maxOutbound
    else st) st

def applyInsert (now symbolId tsNs userId : Nat) (id : OrderId) (price qty : Int) (side : Side)
    (maxOutbound : Nat) : Option MarketDataState :=
  match (st.ensureBook now symbolId price).bookMut now symbolId with
  | (st, none) => some st
  | (st, some book) => do
      let book ← book.applyInsertById price qty side userId tsNs id
      let book ← book.maybeRecenter
      (st.setBook symbolId book).broadcastUpdates now symbolId side price maxOutbound

def applyCancel (now symbolId tsNs : Nat) (id : OrderId) (maxOutbound : Nat) :
    Option MarketDataState :=
  match st.bookMut now symbolId with
  | (st, none) => some st
  | (st, some book) =>
    match book.applyCancelByOrderId id tsNs with
    | (book, none) => some (st.setBook symbolId book)
    | (book, some (side, price)) =>
      (st.setBook symbolId book).broadcastUpdates now symbolId side price maxOutbound

def applyFill (now symbolId : Nat) (rec : Matching.FillRecord) (maxOutbound : Nat) :
    Option MarketDataState :=
  match st.bookMut now symbolId with
  | (st, none) => some st
  | (st, some book) =>
    match book.applyFillByOrderId (rec.makerOrderIdHi, rec.makerOrderIdLo) rec.qty rec.tsNs with
    | (book, none) => some (st.setBook symbolId book)
    | (book, some (side, price)) => do
        let trade := book.makeTrade rec.price rec.qty rec.takerSide rec.tsNs
        let st ← (st.setBook symbolId book).broadcastUpdates now symbolId side price maxOutbound
        some (st.broadcastTrade symbolId trade maxOutbound)

/-- `apply_record`; other records are ignored. -/
def applyRecord (now symbolId : Nat) (r : Matching.Record) (maxOutbound : Nat) :
    Option MarketDataState :=
  match r with
  | .orderInserted tsNs userId orderIdHi orderIdLo price qty side _ _ =>
    st.applyInsert now symbolId tsNs userId (orderIdHi, orderIdLo) price qty side maxOutbound
  | .orderCancelled tsNs _ orderIdHi orderIdLo _ _ _ =>
    st.applyCancel now symbolId tsNs (orderIdHi, orderIdLo) maxOutbound
  | .fill rec => st.applyFill now symbolId rec maxOutbound
  | _ => some st

/-! ## Clients -/

def onSubscribe (connId symbolId channels snapshotDepth maxOutbound : Nat) : MarketDataState :=
  let st := { st with subs := (st.subs.subscribe connId symbolId channels snapshotDepth).1 }
  if channels &&& 2 ≠ 0 then
    st.sendSnapshotToClient connId symbolId snapshotDepth maxOutbound
  else st

/-- An Unsubscribe frame; symbol 0 stands for all of them. -/
def onUnsubscribe (connId symbolId : Nat) : MarketDataState where
  __ := st
  subs := if symbolId = 0 then st.subs.unsubscribeAll connId else st.subs.unsubscribe
    connId symbolId

def onHeartbeat (now connId timestampMs maxOutbound : Nat) : MarketDataState :=
  ((st.updateHeartbeat now connId).pushToClient connId (.heartbeat timestampMs) maxOutbound).1

end MarketDataState

end Rsx.Marketdata
