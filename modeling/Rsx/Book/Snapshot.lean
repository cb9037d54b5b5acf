import Rsx.Book.Orderbook

/-!
# Snapshots of a book

`snapshot.rs`: the logical checkpoint of a book, and the book rebuilt from it.  A snapshot holds the
resting orders level by level with their handles, the free handles in the order they will be given
out, and the user registry; the links, the bitmaps and the best prices are rebuilt.
-/

namespace Rsx.Book

open Function List

/-- Why a snapshot is not taken or not restored.  `outOfBounds` is the panic on a price whose index
is outside the levels. -/
inductive SnapshotError
  | migrating
  | invalidOrderQueue
  | queueDisagreesWithSlab
  | levelDisagreesWithQueue
  | slabDisagreesWithQueues
  | invalidUserIndex
  | duplicateUserId
  | invalidUserFreeList
  | untrackedUserSlots
  | bumpExceedsCapacity
  | invalidAlignment
  | invalidActiveHandle
  | invalidFreeList
  | untrackedSlots
  | outOfBounds
  deriving DecidableEq, Repr

structure OrderSnapshot where
  handle : Nat
  price : Int
  remainingQty : Int
  side : Side
  tif : TimeInForce
  reduceOnly : Bool
  userId : Nat
  sequence : Nat
  originalQty : Int
  timestampNs : Nat
  orderIdHi : Nat
  orderIdLo : Nat
  deriving DecidableEq, Repr

structure UserSnapshot where
  index : Nat
  state : UserState
  deriving DecidableEq, Repr

structure UserRegistrySnapshot where
  bump : Nat
  maintenanceCursor : Nat
  users : List UserSnapshot
  freeIndices : List Nat
  deriving DecidableEq, Repr

structure BookSnapshot where
  sequence : Nat
  config : BookConfig
  compressionMidPrice : Int
  slabCapacity : Nat
  slabBump : Nat
  orders : List OrderSnapshot
  freeHandles : List Nat
  users : UserRegistrySnapshot
  deriving DecidableEq, Repr

/-! ## Capture -/

def OrderSlot.snapshot (slot : OrderSlot) (handle : Nat) : OrderSnapshot where
  handle := handle
  price := slot.price
  remainingQty := slot.remainingQty
  side := slot.side
  tif := slot.tif
  reduceOnly := slot.reduceOnly
  userId := slot.userId
  sequence := slot.sequence
  originalQty := slot.originalQty
  timestampNs := slot.timestampNs
  orderIdHi := slot.orderIdHi
  orderIdLo := slot.orderIdLo

structure Visit where
  orders : List OrderSnapshot := []
  visited : Nat → Bool := fun _ => false

def Visit.add (v : Visit) (handle : Nat) (slot : OrderSlot) : Visit where
  orders := v.orders ++ [slot.snapshot handle]
  visited := update v.visited handle true

namespace Orderbook

variable (b : Orderbook)

/-- The loop over one queue; it returns the number of orders and the last of them.  A queue that
does not end would come to a visited handle, so the fuel is enough. -/
def captureQueue (tick : Nat) : Nat → Nat → Visit → Nat → Nat →
    Except SnapshotError (Visit × Nat × Nat)
  | 0, _, _, _, _ => .error .invalidOrderQueue
  | fuel + 1, handle, v, count, tail =>
    if handle = NONE then .ok (v, count, tail)
    else if b.orders.bumpNext ≤ handle ∨ v.visited handle then .error .invalidOrderQueue
    else
      let slot := b.orders.get handle
      if ¬ slot.active ∨ slot.tickIndex ≠ tick then .error .queueDisagreesWithSlab
      else captureQueue tick fuel slot.next (v.add handle slot) (count + 1) handle

def captureLevel (v : Visit) (tick : Nat) : Except SnapshotError Visit :=
  let level := b.activeLevels tick
  match b.captureQueue tick (b.orders.bumpNext + 1) level.head v 0 NONE with
  | .error e => .error e
  | .ok (v, count, tail) =>
    if count ≠ level.orderCount ∨ tail ≠ level.tail then .error .levelDisagreesWithQueue else .ok v

def captureLevels : List Nat → Visit → Except SnapshotError Visit
  | [], v => .ok v
  | tick :: ticks, v =>
    match b.captureLevel v tick with
    | .error e => .error e
    | .ok v => captureLevels ticks v

def freeHandles : List Nat :=
  b.orders.walk b.orders.freeHead

end Orderbook

/-- The users in the order of their slots.  The map gives a slot to at most one user. -/
def UserRegistry.capture (r : UserRegistry) : UserRegistrySnapshot where
  bump := r.userBump
  maintenanceCursor := r.maintenanceCursor
  users := (range r.userBump).filterMap fun i =>
    if r.userMap (r.userStates i).userId = some i then some ⟨i, r.userStates i⟩ else none
  freeIndices := r.userFreeList

def Orderbook.capture (b : Orderbook) : Except SnapshotError BookSnapshot :=
  if b.state = .migrating then .error .migrating
  else
    match b.captureLevels (range b.compression.totalSlots) {} with
    | .error e => .error e
    | .ok v =>
      if (range b.orders.bumpNext).any fun h => (b.orders.get h).active ≠ v.visited h then
        .error .slabDisagreesWithQueues
      else .ok
        { sequence := b.sequence
          config := b.config
          compressionMidPrice := b.compression.midPrice
          slabCapacity := b.orders.capacity
          slabBump := b.orders.bumpNext
          orders := v.orders
          freeHandles := b.freeHandles
          users := b.users.capture }

/-! ## Restore -/

def restoreUserSlots (bump : Nat) : List UserSnapshot → UserRegistry → (Nat → Bool) →
    Except SnapshotError (UserRegistry × (Nat → Bool))
  | [], r, occupied => .ok (r, occupied)
  | user :: users, r, occupied =>
    if bump ≤ user.index ∨ occupied user.index then .error .invalidUserIndex
    else if (r.userMap user.state.userId).isSome then .error .duplicateUserId
    else
      restoreUserSlots bump users
        { r.modify user.index fun _ => user.state with
          userMap := update r.userMap user.state.userId (some user.index) }
        (update occupied user.index true)

/-- The check of a free list against the slots in use: the slots it marks. -/
def restoreFree (error : SnapshotError) (bump : Nat) (used : Nat → Bool) :
    List Nat → (Nat → Bool) → Except SnapshotError (Nat → Bool)
  | [], free => .ok free
  | index :: indices, free =>
    if bump ≤ index ∨ used index ∨ free index then .error error
    else restoreFree error bump used indices (update free index true)

def restoreUsers (snapshot : UserRegistrySnapshot) : Except SnapshotError UserRegistry :=
  match restoreUserSlots snapshot.bump snapshot.users {} fun _ => false with
  | .error e => .error e
  | .ok (registry, occupied) =>
    match restoreFree .invalidUserFreeList snapshot.bump occupied snapshot.freeIndices
        fun _ => false with
    | .error e => .error e
    | .ok free =>
      if (range snapshot.bump).any fun i => !occupied i && !free i then
        .error .untrackedUserSlots
      else .ok
        { registry with
          userFreeList := snapshot.freeIndices
          userBump := snapshot.bump
          maintenanceCursor := snapshot.maintenanceCursor }

def OrderSnapshot.slot (order : OrderSnapshot) : OrderSlot :=
  { price := order.price, remainingQty := order.remainingQty, side := order.side, active := true
    reduceOnly := order.reduceOnly, tif := order.tif, userId := order.userId
    sequence := order.sequence, originalQty := order.originalQty
    timestampNs := order.timestampNs, orderIdHi := order.orderIdHi, orderIdLo := order.orderIdLo }

def restoreSlots (bump : Nat) : List OrderSnapshot → Slab OrderSlot → (Nat → Bool) →
    Except SnapshotError (Slab OrderSlot × (Nat → Bool))
  | [], slab, active => .ok (slab, active)
  | order :: orders, slab, active =>
    if bump ≤ order.handle ∨ active order.handle then .error .invalidActiveHandle
    else
      restoreSlots bump orders (slab.modify order.handle fun _ => order.slot)
        (update active order.handle true)

def Slab.restoreFreeHandles (s : Slab OrderSlot) (handles : List Nat) : Slab OrderSlot :=
  handles.foldr (fun idx s => s.free idx) { s with freeHead := NONE }

namespace Orderbook

variable (b : Orderbook)

def relink (tick handle : Nat) (qty : Int) : Orderbook :=
  let orders := b.orders.modify handle fun slot => { slot with tickIndex := tick }
  let level := b.activeLevels tick
  { b with
    orders :=
      if level.orderCount = 0 then orders
      else
        (orders.modify level.tail fun slot => { slot with next := handle }).modify handle
          fun slot => { slot with prev := level.tail }
    activeLevels := update b.activeLevels tick
      { level with
        head := if level.orderCount = 0 then handle else level.head
        tail := handle
        totalQty := sat64 (level.totalQty + qty)
        orderCount := level.orderCount + 1 } }

def relinkOrders : List OrderSnapshot → Orderbook → Except SnapshotError Orderbook
  | [], b => .ok b
  | order :: orders, b =>
    let tick := b.compression.priceToIndex order.price
    if tick < b.compression.totalSlots then
      relinkOrders orders (b.relink tick order.handle order.remainingQty)
    else .error .outOfBounds

def countSide (tick : Nat) (side : Side) : Nat :=
  (b.levelOrders tick).countP fun order => order.side = side

def rebuildOccupancy : Orderbook :=
  let n := b.compression.totalSlots
  { b with
    activeLevels := fun tick =>
      if tick < n then { b.activeLevels tick with count := b.countSide tick }
      else b.activeLevels tick
    occ := fun side => (range n).foldl
      (fun occ tick => if 0 < b.countSide tick side then occ.set tick else occ) (Occupancy.new n) }

end Orderbook

def restore (snapshot : BookSnapshot) (capacity : Nat) : Except SnapshotError Orderbook :=
  if snapshot.slabCapacity < snapshot.slabBump then .error .bumpExceedsCapacity
  else if snapshot.config.tickSize ≤ 0 ∨ snapshot.config.lotSize ≤ 0 then .error .invalidAlignment
  else
    let book := Orderbook.new snapshot.config (max capacity snapshot.slabCapacity)
      snapshot.compressionMidPrice
    let bump := snapshot.slabBump
    match restoreSlots bump snapshot.orders { book.orders with bumpNext := bump }
        fun _ => false with
    | .error e => .error e
    | .ok (orders, active) =>
      match restoreFree .invalidFreeList bump active snapshot.freeHandles fun _ => false with
      | .error e => .error e
      | .ok free =>
        if (range bump).any fun h => !active h && !free h then .error .untrackedSlots
        else
          match restoreUsers snapshot.users with
          | .error e => .error e
          | .ok users =>
            let book := { book with
              orders := orders.restoreFreeHandles snapshot.freeHandles
              users := users }
            match Orderbook.relinkOrders snapshot.orders book with
            | .error e => .error e
            | .ok book =>
              let book := { book with sequence := snapshot.sequence }.rebuildOccupancy
              .ok ((book.refreshBest .buy).refreshBest .sell)

end Rsx.Book
