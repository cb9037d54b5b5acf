import Rsx.Book.Orderbook

/-!
# Recentering

`migration.rs`: replace the compression map by one around a new mid price and relink every resting
order into the slot the new map gives it.
-/

namespace Rsx.Book.Orderbook

variable (b : Orderbook)

def shouldRecenter (currentMid : Int) : Bool :=
  (b.compression.thresholds 0).tdiv 2 < ((currentMid - b.compression.midPrice).natAbs : Int)

/-- The loop of `migrate_single_level`: append each order of an old list, in its order, to the slot
of the new map.  `none` is an index out of bounds. -/
def migrateOrders : Nat → Orderbook → Nat → Option Orderbook
  | 0, _, _ => none
  | fuel + 1, b, cursor =>
    if cursor = NONE then some b
    else
      let slot := b.orders.get cursor
      let newIdx := b.compression.priceToIndex slot.price
      if newIdx < b.compression.totalSlots then
        let b := b.modifySlot cursor fun s => { s with tickIndex := newIdx }
        let b := b.linkTail newIdx cursor slot.side slot.remainingQty
        migrateOrders fuel (b.improveBest slot.side newIdx slot.price) slot.next
      else
        none

def migrateSingleLevel (oldIdx : Nat) : Option Orderbook :=
  match b.oldLevels, b.oldCompression with
  | some levels, some compression =>
    if compression.totalSlots ≤ oldIdx ∨ (levels oldIdx).orderCount = 0 then some b
    else do
      let b ← migrateOrders (b.orders.capacity + 1) b (levels oldIdx).head
      some { b with oldLevels := some (Function.update levels oldIdx {}) }
  | _, _ => some b

def migratePrice (price : Int) : Option Orderbook :=
  match b.oldCompression with
  | some compression => b.migrateSingleLevel (compression.priceToIndex price)
  | none => some b

def reset (newMid : Int) : Orderbook :=
  let compression := CompressionMap.new newMid b.config.tickSize
  { b with
    activeLevels := fun _ => {}
    compression := compression
    oldLevels := some b.activeLevels
    oldCompression := some b.compression
    state := .migrating
    occ := fun _ => Occupancy.new compression.totalSlots
    priceAsc := compression.buildPriceAsc
    bestTick := fun _ => NONE
    bestPx := fun _ => 0 }

def triggerRecenter (newMid : Int) : Option Orderbook :=
  (b.reset newMid).migratePrice newMid

def migrateFrom : Nat → Nat → Orderbook → Option Orderbook
  | 0, _, b => some b
  | slots + 1, oldIdx, b => do
      let b ← b.migrateSingleLevel oldIdx
      migrateFrom slots (oldIdx + 1) b

def completeMigrationEager : Option Orderbook :=
  if b.state ≠ .migrating then some b
  else do
    let oldLen := (b.oldCompression.map CompressionMap.totalSlots).getD 0
    let b ← migrateFrom oldLen 0 b
    some { b with oldLevels := none, oldCompression := none, state := .normal }

def recenterNow (newMid : Int) : Option Orderbook := do
  let b ← b.triggerRecenter newMid
  b.completeMigrationEager

end Rsx.Book.Orderbook
