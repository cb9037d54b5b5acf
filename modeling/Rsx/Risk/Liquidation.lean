import Rsx.Risk.Margin

/-!
# The liquidation engine

The first half of `liquidation.rs`: a list of positions under liquidation, the rounds of orders at
ever worse prices, and the pause after a loss was socialized.
-/

namespace Rsx.Risk

open Book

inductive LiquidationStatus
  | pending
  | active
  | done
  deriving DecidableEq, Repr

structure LiquidationState where
  userId : Nat
  symbolId : Nat
  round : Nat
  status : LiquidationStatus
  enqueuedAtNs : Nat
  lastOrderNs : Nat
  deriving DecidableEq, Repr

structure LiquidationOrder where
  symbolId : Nat
  userId : Nat
  round : Nat
  side : Side
  price : Int
  qty : Int
  slipBps : Int
  deriving DecidableEq, Repr

structure SocializedLoss where
  userId : Nat
  symbolId : Nat
  round : Nat
  side : Side
  price : Int
  qty : Int
  timestampNs : Nat
  deriving DecidableEq, Repr

structure Cooldown where
  userId : Nat
  symbolId : Nat
  retryAtNs : Nat
  deriving DecidableEq, Repr

structure LiquidationEngine where
  active : List LiquidationState := []
  socializedCooldown : List Cooldown := []
  socializedCooldownNs : Nat
  baseDelayNs : Nat
  baseSlipBps : Int
  maxRounds : Nat
  maxSlipBps : Int
  deriving DecidableEq, Repr

namespace LiquidationEngine

def enqueue (l : LiquidationEngine) (userId symbolId nowNs : Nat) : LiquidationEngine × Bool :=
  let l := { l with socializedCooldown := l.socializedCooldown.filter (nowNs < ·.retryAtNs) }
  if l.socializedCooldown.any fun c => c.userId = userId ∧ c.symbolId = symbolId then (l, false)
  else if l.active.any fun s => s.userId = userId ∧ s.symbolId = symbolId ∧ s.status ≠ .done then
    (l, false)
  else
    ({ l with active := l.active ++ [⟨userId, symbolId, 1, .active, nowNs, 0⟩] }, true)

def slip (l : LiquidationEngine) (round : Nat) : Int :=
  match (tryI64 (round * round)).bind fun v => tryI64 (v * l.baseSlipBps) with
  | some v => min v l.maxSlipBps
  | none => l.maxSlipBps

def slipPrice (mark slip : Int) : Side → Int
  | .sell => ((tryI64 (mark * (10000 - slip))).map (·.tdiv 10000)).getD 0
  | .buy => ((tryI64 (mark * (10000 + slip))).map (·.tdiv 10000)).getD i64Max

inductive Step
  | none
  | order (order : LiquidationOrder)
  | socialized (loss : SocializedLoss)
  deriving DecidableEq, Repr

/-- One turn of the loop of `maybe_process`.  The first round is due at once. -/
def processEntry (l : LiquidationEngine) (nowNs : Nat) (position : Nat → Nat → Int)
    (markPrice : Nat → Int) (state : LiquidationState) : LiquidationState × Step :=
  if state.status ≠ .active then (state, .none)
  else if 1 < state.round ∧
      nowNs < satU64 (state.lastOrderNs + satU64 (state.round * l.baseDelayNs)) then (state, .none)
  else
    let netQty := position state.userId state.symbolId
    let mark := markPrice state.symbolId
    let side : Side := if 0 < netQty then .sell else .buy
    let qty := wrap64 netQty.natAbs
    if netQty = 0 then ({ state with status := .done }, .none)
    else if mark = 0 then (state, .none)
    else if l.maxRounds < state.round then
      ({ state with status := .done },
        .socialized ⟨state.userId, state.symbolId, state.round, side, mark, qty, nowNs⟩)
    else
      let slip := l.slip state.round
      ({ state with lastOrderNs := nowNs, round := state.round + 1 },
        .order ⟨state.symbolId, state.userId, state.round, side, slipPrice mark slip side, qty,
          slip⟩)

def Step.order? : Step → Option LiquidationOrder
  | .order sent => some sent
  | _ => Option.none

def Step.socialized? : Step → Option SocializedLoss
  | .socialized loss => some loss
  | _ => Option.none

def maybeProcess (l : LiquidationEngine) (nowNs : Nat) (position : Nat → Nat → Int)
    (markPrice : Nat → Int) : LiquidationEngine × List LiquidationOrder × List SocializedLoss :=
  let turns := l.active.map (l.processEntry nowNs position markPrice)
  let losses := turns.filterMap (·.2.socialized?)
  let retryAt := satU64 (nowNs + l.socializedCooldownNs)
  ({ l with
      active := turns.map Prod.fst
      socializedCooldown := l.socializedCooldown ++
        losses.map fun loss => ⟨loss.userId, loss.symbolId, retryAt⟩ },
    turns.filterMap (·.2.order?), losses)

def cancelIfRecovered (l : LiquidationEngine) (userId symbolId : Nat) : LiquidationEngine :=
  { l with active := l.active.filter fun s => ¬ (s.userId = userId ∧ s.symbolId = symbolId) }

def removeDone (l : LiquidationEngine) : LiquidationEngine :=
  { l with active := l.active.filter (·.status ≠ .done) }

end LiquidationEngine

def roundToTick (price tick : Int) (side : Side) : Int :=
  if tick ≤ 0 then price
  else
    let floor := wrap64 (price - price.tmod tick)
    match side with
    | .sell => max floor tick
    | .buy => if floor = price then price else (tryI64 (floor + tick)).getD floor

end Rsx.Risk
