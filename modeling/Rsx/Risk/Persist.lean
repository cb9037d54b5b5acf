import Rsx.Lib.Table
import Rsx.Risk.Ingest

/-!
# The database of a risk shard

`persist.rs` and the parts of `replay.rs`, `promotion.rs` and `funding.rs` that read its tables: a
batch of events is one transaction, a start loads the tables and applies the log after the persisted
tips.  The tables of fills and liquidations are written only, so they are left out.
-/

namespace Rsx.Risk

open Book PersistEvent

structure Database where
  positions : List Position := []
  accounts : List Account := []
  frozenOrders : List FrozenOrderRecord := []
  tips : List (Nat × Nat) := []
  funding : List FundingRecord := []
  fundingIntervals : List (Nat × Nat) := []
  insuranceFund : List InsuranceFund := []
  deriving DecidableEq

/-! ## What a batch writes -/

namespace PersistEvent

def position? : PersistEvent → Option Position
  | .position row => some row
  | _ => none

def accountRows : PersistEvent → List Account
  | .account row => [row]
  | .fundingSettlement settlement => settlement.accounts
  | _ => []

def tip? : PersistEvent → Option (Nat × Nat)
  | .tip symbolId seq => some (symbolId, seq)
  | _ => none

end PersistEvent

/-! ## The statements -/

def upsertPositions (rows new : List Position) : List Position :=
  Table.upsertAll (fun p => (p.userId, p.symbolId)) (fun old row => old.version ≤ row.version)
    rows new

def upsertAccounts (rows new : List Account) : List Account :=
  Table.upsertAll Account.userId (fun old row => old.version ≤ row.version) rows new

/-- A row of `tips`, which keeps the greatest sequence number. -/
def upsertTip (rows : List (Nat × Nat)) (tip : Nat × Nat) : List (Nat × Nat) :=
  let last := ((Table.find Prod.fst tip.1 rows).map Prod.snd).getD 0
  Table.upsert Prod.fst (fun _ _ => true) (tip.1, max last tip.2) rows

def upsertTips (rows tips : List (Nat × Nat)) : List (Nat × Nat) :=
  tips.foldl upsertTip rows

structure ColdStartState where
  accounts : List Account
  positions : List Position
  tips : Nat → Nat
  insuranceFunds : List InsuranceFund
  frozenOrders : List FrozenOrderRecord
  fundingSettled : Nat → Option Nat

/-- `load_funding_settled`: the last settled interval of each symbol. -/
def Database.loadFundingSettled (db : Database) (maxSymbols symbolId : Nat) : Option Nat :=
  if symbolId < maxSymbols then
    ((db.fundingIntervals.filter (·.1 = symbolId)).map Prod.snd).max?
  else none

def Database.loadFromPostgres (db : Database) (shardId shardCount maxSymbols : Nat) :
    ColdStartState where
  accounts := db.accounts.filter fun a => a.userId % shardCount = shardId
  positions := db.positions.filter fun p => p.userId % shardCount = shardId
  tips := fun symbolId =>
    if symbolId < maxSymbols then
      ((Table.find Prod.fst symbolId db.tips).map Prod.snd).getD 0
    else 0
  insuranceFunds := db.insuranceFund
  frozenOrders :=
    (db.frozenOrders.filter fun r => r.userId % shardCount = shardId).foldl
      (fun rows row => Table.upsert FrozenOrderRecord.orderId (fun _ _ => true) row rows) []
  fundingSettled := db.loadFundingSettled maxSymbols

namespace Shard

/-- `set_state`, with the indexes rebuilt from the loaded rows. -/
def setState (s : Shard) (state : ColdStartState) : Shard :=
  { s with
    accounts := fun userId => Table.find Account.userId userId state.accounts
    positions := fun userId symbolId =>
      Table.find (fun p => (p.userId, p.symbolId)) (userId, symbolId) state.positions
    insuranceFunds := fun symbolId =>
      Table.find InsuranceFund.symbolId symbolId state.insuranceFunds
    frozenOrders := fun orderId =>
      (Table.find FrozenOrderRecord.orderId orderId state.frozenOrders).map fun row =>
        ⟨row.userId, row.symbolId, row.amount⟩
    frozenByUser := fun userId =>
      (state.frozenOrders.filter (·.userId = userId)).map fun row => (row.orderId, row.amount)
    exposure := fun symbolId =>
      if symbolId < s.maxSymbols then
        (state.positions.filter fun p => p.symbolId = symbolId ∧ ¬ p.isEmpty).foldl
          (fun users p => addExposed users p.userId) []
      else []
    fundingSettled := state.fundingSettled
    tips := state.tips }

def loaded (s : Shard) (db : Database) : Shard :=
  s.setState (db.loadFromPostgres s.shardId s.shardCount s.maxSymbols)

/-! ## Warm catch-up -/

/-- `stream_to_caught_up`: the records of one stream after a position. -/
def streamToCaughtUp (s : Shard) (log : List MeRecord) (symbolId tip : Nat) : Shard :=
  (log.filter fun record => record.symbolId = symbolId ∧ tip < record.seq).foldl applyRecord s

/-- `run_warm_catchup`: each stream from the tip that was loaded. -/
def runWarmCatchup (s : Shard) (log : List MeRecord) (streams : List Nat) : Shard :=
  streams.foldl (fun s' symbolId => s'.streamToCaughtUp log symbolId (s.tips symbolId)) s

/-- `set_persist_producer`, with an empty ring. -/
def setPersistProducer (s : Shard) : Shard :=
  { s with persist := some [] }

end Shard

end Rsx.Risk
