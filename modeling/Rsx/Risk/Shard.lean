import Rsx.Risk.Liquidation

/-!
# The risk shard

`shard.rs` with the methods that `position.rs`, `margin.rs`, `price.rs`, `liquidation.rs`,
`insurance.rs`, `funding.rs` and `config.rs` give it.  Hash maps and the vectors over the symbols
are functions of their key.  The index of a user's positions is a scan of the symbols.  -/

namespace Rsx.Risk

open Function Book

/-! ## What is persisted -/

structure FillRow where
  symbolId : Nat
  takerUserId : Nat
  makerUserId : Nat
  price : Int
  qty : Int
  takerFee : Int
  makerFee : Int
  takerSide : Side
  seq : Nat
  timestampNs : Nat
  deriving DecidableEq, Repr

structure FundingRecord where
  userId : Nat
  symbolId : Nat
  intervalId : Nat
  amount : Int
  rate : Int
  settlementTs : Nat
  deriving DecidableEq, Repr

structure FundingSettlement where
  symbolId : Nat
  intervalId : Nat
  payments : List FundingRecord
  accounts : List Account
  deriving DecidableEq, Repr

structure LiquidationRow where
  userId : Nat
  symbolId : Nat
  round : Nat
  side : Side
  price : Int
  qty : Int
  slippageBps : Int
  status : Nat
  timestampNs : Nat
  deriving DecidableEq, Repr

structure FrozenOrderRecord where
  userId : Nat
  orderId : OrderId
  symbolId : Nat
  amount : Int
  deriving DecidableEq, Repr

structure InsuranceFund where
  symbolId : Nat
  balance : Int := 0
  version : Nat := 0
  deriving DecidableEq, Repr

def InsuranceFund.deduct (fund : InsuranceFund) (amount : Int) : InsuranceFund :=
  { fund with balance := sat64 (fund.balance - amount), version := fund.version + 1 }

inductive PersistEvent
  | position (position : Position)
  | account (account : Account)
  | fill (fill : FillRow)
  | tip (symbolId seq : Nat)
  | fundingSettlement (settlement : FundingSettlement)
  | insuranceFund (fund : InsuranceFund)
  | liquidation (row : LiquidationRow)
  | frozenInsert (row : FrozenOrderRecord)
  | frozenRemove (userId : Nat) (orderId : OrderId)
  | configReload (symbolId configVersion : Nat)
  deriving DecidableEq, Repr

/-! ## The shard -/

structure FillEvent where
  seq : Nat
  symbolId : Nat
  takerUserId : Nat
  makerUserId : Nat
  price : Int
  qty : Int
  takerSide : Side
  timestampNs : Nat := 0
  deriving DecidableEq, Repr

structure BboUpdate where
  seq : Nat
  symbolId : Nat
  bidPx : Int
  bidQty : Int
  askPx : Int
  askQty : Int
  deriving DecidableEq, Repr

structure IndexPrice where
  price : Int := 0
  valid : Bool := false
  deriving DecidableEq, Repr

def calculateIndex (bidPx bidQty askPx askQty lastIndex : Int) : Int :=
  if bidQty + askQty = 0 then lastIndex
  else if bidQty = 0 then askPx
  else if askQty = 0 then bidPx
  else sat64 ((bidPx * askQty + askPx * bidQty).tdiv (bidQty + askQty))

def IndexPrice.updateFromBbo (index : IndexPrice) (bbo : BboUpdate) : IndexPrice :=
  ⟨calculateIndex bbo.bidPx bbo.bidQty bbo.askPx bbo.askQty index.price, true⟩

structure Freeze where
  userId : Nat
  symbolId : Nat
  amount : Int
  deriving DecidableEq, Repr

structure CancelRequest where
  userId : Nat
  symbolId : Nat
  orderId : OrderId
  deriving DecidableEq, Repr

structure SymbolRiskConfig where
  symbolId : Nat
  configVersion : Nat
  params : SymbolRiskParams
  takerFeeBps : Int
  makerFeeBps : Int
  tickSize : Int
  fundingIntervalSecs : Nat
  fundingMinBps : Int
  fundingMaxBps : Int
  deriving DecidableEq, Repr

inductive OrderResponse
  | accepted (userId : Nat) (marginReserved : Int) (orderId : OrderId)
  | rejected (userId : Nat) (reason : RejectReason) (orderId : OrderId)
  | liquidation (userId symbolId status round : Nat) (side : Side) (qty price slipBps : Int)
  deriving DecidableEq, Repr

/-- `RiskShard`.  `persist` is what was pushed on the persist ring, `none` without a producer. -/
structure Shard where
  shardId : Nat := 0
  shardCount : Nat := 1
  maxSymbols : Nat
  accounts : Nat → Option Account := fun _ => none
  positions : Nat → Nat → Option Position := fun _ _ => none
  margin : PortfolioMargin := ⟨fun _ => none⟩
  indexPrices : Nat → IndexPrice := fun _ => {}
  markPrices : Nat → Int := fun _ => 0
  exposure : Nat → List Nat := fun _ => []
  tips : Nat → Nat := fun _ => 0
  fundingIntervalSecs : Nat → Nat := fun _ => 0
  fundingMinBps : Nat → Int := fun _ => 0
  fundingMaxBps : Nat → Int := fun _ => 0
  fundingSettled : Nat → Option Nat := fun _ => none
  fundingCheckedSecs : Nat := u64Max
  takerFeeBps : Nat → Int := fun _ => 0
  makerFeeBps : Nat → Int := fun _ => 0
  tickSize : Nat → Int := fun _ => 0
  stashedBbo : Nat → Option BboUpdate := fun _ => none
  insuranceFunds : Nat → Option InsuranceFund := fun _ => none
  frozenOrders : OrderId → Option Freeze := fun _ => none
  frozenByUser : Nat → List (OrderId × Int) := fun _ => []
  pendingCancels : List CancelRequest := []
  configVersions : Nat → Nat := fun _ => 0
  persist : Option (List PersistEvent) := none
  configUpdates : List SymbolRiskConfig := []
  liquidation : LiquidationEngine
  fallbackMarkPrices : Nat → Int := fun _ => 0
  markDirty : Bool := true

namespace Shard

def userInShard (s : Shard) (userId : Nat) : Bool :=
  userId % s.shardCount = s.shardId

/-- `push_persist`.  A full ring stalls the shard, so nothing is dropped. -/
def pushPersist (s : Shard) (event : PersistEvent) : Shard :=
  { s with persist := s.persist.map (· ++ [event]) }

/-! ## Accounts and positions -/

def ensureAccount (s : Shard) (userId : Nat) : Shard :=
  match s.accounts userId with
  | some _ => s
  | none => { s with accounts := update s.accounts userId (some ⟨userId, 0, 0⟩) }

def setPosition (s : Shard) (userId symbolId : Nat) (position : Position) : Shard :=
  { s with
    positions := update s.positions userId
      (update (s.positions userId) symbolId (some position)) }

def ensurePosition (s : Shard) (userId symbolId : Nat) : Shard :=
  match s.positions userId symbolId with
  | some _ => s
  | none => s.setPosition userId symbolId { userId := userId, symbolId := symbolId }

def setAccount (s : Shard) (userId : Nat) (account : Account) : Shard :=
  { s with accounts := update s.accounts userId (some account) }

def iterPositionsForUser (s : Shard) (userId : Nat) : List Position :=
  (List.range s.maxSymbols).filterMap (s.positions userId)

def addExposed (users : List Nat) (userId : Nat) : List Nat :=
  if userId ∈ users then users else users ++ [userId]

def updateExposure (s : Shard) (userId symbolId : Nat) : Shard :=
  match s.positions userId symbolId with
  | none => s
  | some position =>
    let users := s.exposure symbolId
    { s with
      exposure := update s.exposure symbolId
        (if position.isEmpty then users.filter (· ≠ userId) else addExposed users userId) }

/-! ## Freezes -/

/-- An entry of `frozen_by_user`, put in or replaced in its place. -/
def insertFrozen (entries : List (OrderId × Int)) (orderId : OrderId) (amount : Int) :
    List (OrderId × Int) :=
  if entries.any (·.1 = orderId) then
    entries.map fun entry => if entry.1 = orderId then (orderId, amount) else entry
  else entries ++ [(orderId, amount)]

def freeze (s : Shard) (userId symbolId : Nat) (orderId : OrderId) (amount : Int) : Shard :=
  { s with
    frozenOrders := update s.frozenOrders orderId (some ⟨userId, symbolId, amount⟩)
    frozenByUser := update s.frozenByUser userId
      (insertFrozen (s.frozenByUser userId) orderId amount) }

def frozenForUser (s : Shard) (userId : Nat) : Int :=
  (s.frozenByUser userId).foldl (fun total entry => sat64 (total + entry.2)) 0

def confirmFreeze (s : Shard) (userId : Nat) (orderId : OrderId) (symbolId : Nat) : Shard :=
  if ¬ s.userInShard userId then s
  else
    match s.frozenOrders orderId with
    | some frozen =>
      if frozen.userId = userId then
        s.pushPersist (.frozenInsert ⟨userId, orderId, symbolId, frozen.amount⟩)
      else s
    | none => s

/-- `release_frozen_for_order`.  A freeze of another user is kept. -/
def releaseFrozenForOrder (s : Shard) (userId : Nat) (orderId : OrderId) : Shard :=
  if ¬ s.userInShard userId then s
  else
    match s.frozenOrders orderId with
    | some frozen =>
      if frozen.userId = userId then
        { s with
          frozenOrders := update s.frozenOrders orderId none
          frozenByUser := update s.frozenByUser userId
            ((s.frozenByUser userId).filter (·.1 ≠ orderId)) }.pushPersist
          (.frozenRemove userId orderId)
      else s
    | none => s

def replayFreezeOrder (s : Shard) (userId : Nat) (orderId : OrderId) (price qty : Int)
    (symbolId : Nat) : Shard :=
  let s := s.ensureAccount userId
  match s.margin.symbolParams symbolId with
  | none => s
  | some params =>
    s.freeze userId symbolId orderId
      (calculateMarginNeeded params price qty (s.takerFeeBps symbolId))

/-! ## Prices -/

def processBbo (s : Shard) (bbo : BboUpdate) : Shard :=
  if s.maxSymbols ≤ bbo.symbolId then s
  else
    { s with
      indexPrices := update s.indexPrices bbo.symbolId
        ((s.indexPrices bbo.symbolId).updateFromBbo bbo)
      markDirty := true }

def updateMark (s : Shard) (symbolId : Nat) (price : Int) : Shard :=
  if s.maxSymbols ≤ symbolId then s
  else { s with markPrices := update s.markPrices symbolId price, markDirty := true }

def stashBbo (s : Shard) (bbo : BboUpdate) : Shard :=
  if s.maxSymbols ≤ bbo.symbolId then s
  else { s with stashedBbo := update s.stashedBbo bbo.symbolId (some bbo) }

/-- The price `rebuild_fallback` gives a symbol: the mark, else a valid index. -/
def fallbackPrice (s : Shard) (symbolId : Nat) : Int :=
  if s.markPrices symbolId = 0 ∧ (s.indexPrices symbolId).valid ∧
      0 < (s.indexPrices symbolId).price then
    (s.indexPrices symbolId).price
  else s.markPrices symbolId

def rebuildFallback (s : Shard) : Shard :=
  { s with fallbackMarkPrices := s.fallbackPrice, markDirty := false }

def freshPrices (s : Shard) : Shard :=
  if s.markDirty then s.rebuildFallback else s

/-! ## Liquidation -/

def marginState (s : Shard) (userId : Nat) (account : Account) : MarginState :=
  s.margin.calculate account (s.iterPositionsForUser userId) s.fallbackMarkPrices
    (s.frozenForUser userId)

def queueCancels (s : Shard) (userId : Nat) : Shard :=
  let cancels := (s.frozenByUser userId).filterMap fun (orderId, amount) =>
    match s.frozenOrders orderId with
    | some frozen => if amount = 0 then none else some ⟨userId, frozen.symbolId, orderId⟩
    | none => none
  { s with pendingCancels := s.pendingCancels ++ cancels }

def enqueueOrCancel (needsLiquidation : Bool) (userId nowNs : Nat)
    (acc : LiquidationEngine × Bool) (position : Position) : LiquidationEngine × Bool :=
  if position.isEmpty then acc
  else if needsLiquidation then
    let (liquidation, started) := acc.1.enqueue userId position.symbolId nowNs
    (liquidation, acc.2 || started)
  else (acc.1.cancelIfRecovered userId position.symbolId, acc.2)

/-- The loop of `check_liquidation_for`, and the cancels of a user who enters liquidation. -/
def scanUser (s : Shard) (userId nowNs : Nat) (account : Account) : Shard :=
  let needsLiquidation := PortfolioMargin.needsLiquidation (s.marginState userId account)
  let scan := (s.iterPositionsForUser userId).foldl
    (enqueueOrCancel needsLiquidation userId nowNs) (s.liquidation, false)
  let s := { s with liquidation := scan.1 }
  if scan.2 then s.queueCancels userId else s

def checkLiquidationFor (s : Shard) (userId nowNs : Nat) : Shard :=
  if ¬ s.userInShard userId then s
  else
    let s := s.freshPrices
    match s.accounts userId with
    | none => s
    | some account => s.scanUser userId nowNs account

/-! ## Fills -/

def applyLeg (s : Shard) (userId : Nat) (fill : FillEvent) (side : Side) (fee : Int) : Shard :=
  if ¬ s.userInShard userId then s
  else
    let s := (s.ensureAccount userId).ensurePosition userId fill.symbolId
    match s.positions userId fill.symbolId, s.accounts userId with
    | some position, some account =>
      let s := s.setPosition userId fill.symbolId
        (position.applyFill side fill.price fill.qty fill.seq)
      (s.setAccount userId (account.deductFee fee)).updateExposure userId fill.symbolId
    | _, _ => s

def pushRows (s : Shard) (userId symbolId : Nat) : Shard :=
  let s := match s.positions userId symbolId with
    | some position => s.pushPersist (.position position)
    | none => s
  match s.accounts userId with
  | some account => s.pushPersist (.account account)
  | none => s

/-- The part of `process_fill` that changes positions, accounts and the tip. -/
def bookFill (s : Shard) (fill : FillEvent) : Shard :=
  let takerFee := calculateFee fill.qty fill.price (s.takerFeeBps fill.symbolId)
  let makerFee := calculateFee fill.qty fill.price (s.makerFeeBps fill.symbolId)
  let s := s.applyLeg fill.takerUserId fill fill.takerSide takerFee
  let s := s.applyLeg fill.makerUserId fill fill.takerSide.opposite makerFee
  { s with tips := update s.tips fill.symbolId fill.seq }

/-- The part of `process_fill` that pushes the rows and the tip. -/
def persistFill (s : Shard) (fill : FillEvent) : Shard :=
  let takerFee := calculateFee fill.qty fill.price (s.takerFeeBps fill.symbolId)
  let makerFee := calculateFee fill.qty fill.price (s.makerFeeBps fill.symbolId)
  let s :=
    if s.userInShard fill.takerUserId then
      (s.pushPersist (.fill ⟨fill.symbolId, fill.takerUserId, fill.makerUserId, fill.price,
        fill.qty, takerFee, makerFee, fill.takerSide, fill.seq, fill.timestampNs⟩)).pushRows
          fill.takerUserId fill.symbolId
    else s
  let s := if s.userInShard fill.makerUserId then s.pushRows fill.makerUserId fill.symbolId else s
  s.pushPersist (.tip fill.symbolId fill.seq)

/-- `process_fill`.  A fill at or below the tip was applied before. -/
def processFill (s : Shard) (fill : FillEvent) : Shard :=
  if s.maxSymbols ≤ fill.symbolId ∨ fill.seq ≤ s.tips fill.symbolId then s
  else
    let s := s.bookFill fill
    let s := s.checkLiquidationFor fill.takerUserId fill.timestampNs
    let s := s.checkLiquidationFor fill.makerUserId fill.timestampNs
    s.persistFill fill

/-! ## Orders -/

def processOrder (s : Shard) (order : OrderRequest) : Shard × OrderResponse :=
  let reject (reason : RejectReason) : OrderResponse := .rejected order.userId reason order.orderId
  if ¬ s.userInShard order.userId then (s, reject .notInShard)
  else if order.price ≤ 0 ∨ order.qty ≤ 0 then (s, reject .insufficientMargin)
  else
    let s := (s.ensureAccount order.userId).freshPrices
    match s.accounts order.userId with
    | none => (s, reject .insufficientMargin)
    | some account =>
      if PortfolioMargin.needsLiquidation (s.marginState order.userId account) ∧
          ¬ order.isLiquidation then
        (s, reject .userInLiquidation)
      else if s.maxSymbols ≤ order.symbolId then (s, reject .insufficientMargin)
      else
        match s.margin.checkOrder account (s.iterPositionsForUser order.userId) order
            s.fallbackMarkPrices (s.takerFeeBps order.symbolId)
            (s.frozenForUser order.userId) with
        | .ok marginNeeded =>
          (s.freeze order.userId order.symbolId order.orderId marginNeeded,
            .accepted order.userId marginNeeded order.orderId)
        | .error reason => (s, reject reason)

/-! ## Socialized losses -/

/-- `process_socialized_loss`, and the notice when a deficit moved. -/
def processSocializedLoss (s : Shard) (loss : SocializedLoss) (nowNs : Nat) :
    Shard × Option OrderResponse :=
  match s.accounts loss.userId with
  | none => (s, none)
  | some account =>
    let equity := (s.marginState loss.userId account).equity
    if 0 ≤ equity then (s, none)
    else
      let deficit := sat64 (-equity)
      let fund := ((s.insuranceFunds loss.symbolId).getD ⟨loss.symbolId, 0, 0⟩).deduct deficit
      let account := account.credit deficit
      let s := { s with
        insuranceFunds := update s.insuranceFunds loss.symbolId (some fund) }
      let s := s.setAccount loss.userId account
      let s := s.pushPersist (.account account)
      let s := s.pushPersist (.liquidation ⟨loss.userId, loss.symbolId, loss.round, loss.side,
        loss.price, loss.qty, 0, 3, nowNs⟩)
      (s.pushPersist (.insuranceFund fund),
        some (.liquidation loss.userId loss.symbolId 3 loss.round loss.side loss.qty loss.price 0))

/-! ## Configuration -/

/-- `apply_symbol_config`.  A funding interval is fixed once it is set. -/
def applySymbolConfig (s : Shard) (config : SymbolRiskConfig) : Shard :=
  let sid := config.symbolId
  if s.maxSymbols ≤ sid then s
  else if s.fundingIntervalSecs sid ≠ 0 ∧
      config.fundingIntervalSecs ≠ s.fundingIntervalSecs sid then s
  else
    { s with
      margin := ⟨update s.margin.symbolParams sid (some config.params)⟩
      takerFeeBps := update s.takerFeeBps sid config.takerFeeBps
      makerFeeBps := update s.makerFeeBps sid config.makerFeeBps
      tickSize := update s.tickSize sid config.tickSize
      fundingIntervalSecs := update s.fundingIntervalSecs sid config.fundingIntervalSecs
      fundingMinBps := update s.fundingMinBps sid config.fundingMinBps
      fundingMaxBps := update s.fundingMaxBps sid config.fundingMaxBps
      configVersions := update s.configVersions sid config.configVersion }

def processConfigApplied (s : Shard) (symbolId configVersion : Nat) : Shard :=
  if s.maxSymbols ≤ symbolId ∨ configVersion ≤ s.configVersions symbolId then s
  else s.pushPersist (.configReload symbolId configVersion)

def drainConfigUpdates (s : Shard) : Shard :=
  { s.configUpdates.foldl applySymbolConfig s with configUpdates := [] }

end Shard

end Rsx.Risk
