import Rsx.Book.Types

/-!
# The user registry

`user.rs`: the net position and resting-order count of every user the book has seen, in reusable
slots, with reclamation of users that stayed idle through a grace period.
-/

namespace Rsx.Book

open Function

def reclaimGraceNs : Nat := 60000000000

structure UserState where
  userId : Nat := 0
  netQty : Int := 0
  orderCount : Nat := 0
  zeroSinceNs : Nat := 0
  deriving DecidableEq, Repr

def UserState.isIdle (u : UserState) : Bool :=
  u.netQty = 0 ∧ u.orderCount = 0

structure UserRegistry where
  userStates : Nat → UserState := fun _ => {}
  userMap : Nat → Option Nat := fun _ => none
  userFreeList : List Nat := []
  userBump : Nat := 0
  maintenanceCursor : Nat := 0

namespace UserRegistry

def modify (r : UserRegistry) (idx : Nat) (f : UserState → UserState) : UserRegistry :=
  { r with userStates := update r.userStates idx (f (r.userStates idx)) }

def getOrAssign (r : UserRegistry) (userId : Nat) : Nat × UserRegistry :=
  match r.userMap userId with
  | some idx => (idx, r.modify idx fun u => { u with zeroSinceNs := 0 })
  | none =>
    match r.userFreeList with
    | idx :: rest =>
      (idx, { r.modify idx fun _ => { userId := userId } with
        userFreeList := rest
        userMap := update r.userMap userId (some idx) })
    | [] =>
      (r.userBump, { r.modify r.userBump fun _ => { userId := userId } with
        userBump := r.userBump + 1
        userMap := update r.userMap userId (some r.userBump) })

/-- `maintain_one`: inspect one slot, marking a newly idle user and reclaiming one that stayed idle
through the grace period. -/
def maintainOne (r : UserRegistry) (nowNs : Nat) (replayMode : Bool) : Option Nat × UserRegistry :=
  if replayMode ∨ r.userBump = 0 then (none, r)
  else
    let i := r.maintenanceCursor % r.userBump
    let r := { r with maintenanceCursor := (r.maintenanceCursor + 1) % r.userBump }
    let state := r.userStates i
    if state.userId = 0 then (none, r)
    else if ¬ state.isIdle then (none, r.modify i fun u => { u with zeroSinceNs := 0 })
    else if state.zeroSinceNs = 0 then (none, r.modify i fun u => { u with zeroSinceNs := nowNs })
    else if nowNs - state.zeroSinceNs < reclaimGraceNs then (none, r)
    else
      (some state.userId, { r.modify i fun _ => {} with
        userMap := update r.userMap state.userId none
        userFreeList := i :: r.userFreeList })

def netQty (r : UserRegistry) (userId : Nat) : Option Int :=
  (r.userMap userId).map fun idx => (r.userStates idx).netQty

def orderCount (r : UserRegistry) (userId : Nat) : Option Nat :=
  (r.userMap userId).map fun idx => (r.userStates idx).orderCount

def addOrder (r : UserRegistry) (userId : Nat) : UserRegistry :=
  let (idx, r) := r.getOrAssign userId
  r.modify idx fun u => { u with orderCount := u.orderCount + 1 }

def removeOrder (r : UserRegistry) (userId : Nat) : UserRegistry :=
  match r.userMap userId with
  | some idx => r.modify idx fun u => { u with orderCount := u.orderCount - 1 }
  | none => r

def signedQty (side : Side) (qty : Int) : Int :=
  match side with
  | .buy => qty
  | .sell => -qty

def addNet (r : UserRegistry) (userId : Nat) (delta : Int) : UserRegistry :=
  let (idx, r) := r.getOrAssign userId
  r.modify idx fun u => { u with netQty := sat64 (u.netQty + delta) }

/-- `apply_fill`: the taker moves in the direction of its side, the maker opposite. -/
def applyFill (r : UserRegistry) (takerUserId makerUserId : Nat) (takerSide : Side)
    (qty : Int) : UserRegistry :=
  (r.addNet takerUserId (signedQty takerSide qty)).addNet makerUserId (-signedQty takerSide qty)

end UserRegistry

end Rsx.Book
