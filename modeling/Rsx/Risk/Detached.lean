import Rsx.Risk.Operations

/-!
# The shard without its persist ring

Nothing the shard does depends on what it pushed to be persisted.
-/

namespace Rsx.Risk

open Function Book

namespace Shard

def detached (s : Shard) : Shard :=
  { s with persist := none }

theorem freshPrices_detached (s : Shard) : s.detached.freshPrices = s.freshPrices.detached := by
  unfold freshPrices
  rw [apply_ite detached]
  rfl

theorem ensureAccount_detached (s : Shard) (userId : Nat) :
    s.detached.ensureAccount userId = (s.ensureAccount userId).detached := by
  rw [ensureAccount_eq, ensureAccount_eq]
  rfl

theorem applyLeg_detached (s : Shard) (userId : Nat) (fill : FillEvent) (side : Side) (fee : Int) :
    s.detached.applyLeg userId fill side fee = (s.applyLeg userId fill side fee).detached := by
  rw [applyLeg_eq, applyLeg_eq, apply_ite detached]
  rfl

theorem bookFill_detached (s : Shard) (fill : FillEvent) :
    s.detached.bookFill fill = (s.bookFill fill).detached := by
  unfold bookFill
  dsimp only
  rw [applyLeg_detached, applyLeg_detached]
  rfl

theorem scanUser_detached (s : Shard) (userId nowNs : Nat) (account : Account) :
    s.detached.scanUser userId nowNs account = (s.scanUser userId nowNs account).detached := by
  unfold scanUser
  rw [apply_ite detached]
  rfl

theorem checkLiquidationFor_detached (s : Shard) (userId nowNs : Nat) :
    s.detached.checkLiquidationFor userId nowNs =
      (s.checkLiquidationFor userId nowNs).detached := by
  unfold checkLiquidationFor
  rw [apply_ite detached]
  refine if_congr Iff.rfl rfl ?_
  dsimp only
  rw [freshPrices_detached]
  rw [show s.freshPrices.detached.accounts = s.freshPrices.accounts from rfl]
  cases s.freshPrices.accounts userId with
  | none => rfl
  | some => exact scanUser_detached ..

theorem processFill_detached (s : Shard) (fill : FillEvent) :
    s.detached.processFill fill = (s.processFill fill).detached := by
  unfold processFill
  rw [apply_ite detached]
  dsimp only
  rw [bookFill_detached, checkLiquidationFor_detached, checkLiquidationFor_detached, persistFill_eq,
    persistFill_eq]
  rfl

theorem detached_confirmFreeze (s : Shard) (userId : Nat) (orderId : OrderId) (symbolId : Nat) :
    (s.confirmFreeze userId orderId symbolId).detached = s.detached := by
  rw [confirmFreeze_eq]
  rfl

theorem confirmFreeze_detached (s : Shard) (userId : Nat) (orderId : OrderId) (symbolId : Nat) :
    s.detached.confirmFreeze userId orderId symbolId =
      (s.confirmFreeze userId orderId symbolId).detached := by
  rw [confirmFreeze_eq, confirmFreeze_eq]
  rfl

theorem releaseFrozenForOrder_detached (s : Shard) (userId : Nat) (orderId : OrderId) :
    s.detached.releaseFrozenForOrder userId orderId =
      (s.releaseFrozenForOrder userId orderId).detached := by
  rw [releaseFrozenForOrder_eq, releaseFrozenForOrder_eq, apply_ite detached]
  rfl

theorem processBbo_detached (s : Shard) (bbo : BboUpdate) :
    s.detached.processBbo bbo = (s.processBbo bbo).detached := by
  unfold processBbo
  rw [apply_ite detached]
  rfl

theorem stashBbo_detached (s : Shard) (bbo : BboUpdate) :
    s.detached.stashBbo bbo = (s.stashBbo bbo).detached := by
  unfold stashBbo
  rw [apply_ite detached]
  rfl

theorem processConfigApplied_detached (s : Shard) (symbolId configVersion : Nat) :
    s.detached.processConfigApplied symbolId configVersion =
      (s.processConfigApplied symbolId configVersion).detached := by
  unfold processConfigApplied
  rw [apply_ite detached]
  rfl

theorem updateMark_detached (s : Shard) (symbolId : Nat) (price : Int) :
    s.detached.updateMark symbolId price = (s.updateMark symbolId price).detached := by
  unfold updateMark
  rw [apply_ite detached]
  rfl

theorem checked_detached (s : Shard) (userId : Nat) :
    s.detached.checked userId = (s.checked userId).detached := by
  unfold checked
  rw [ensureAccount_detached, freshPrices_detached]

theorem processOrder_detached (s : Shard) (order : OrderRequest) :
    s.detached.processOrder order = (s.processOrder order).map detached id := by
  by_cases hvalid : s.userInShard order.userId ∧ 0 < order.price ∧ 0 < order.qty
  · have hdetached : s.detached.processOrder order = _ :=
      processOrder_eq hvalid.1 hvalid.2.1 hvalid.2.2
    rw [hdetached, processOrder_eq hvalid.1 hvalid.2.1 hvalid.2.2, checked_detached]
    generalize s.checked order.userId = c
    by_cases hneeds : PortfolioMargin.needsLiquidation
        (c.marginState order.userId (s.account order.userId)) ∧ ¬ order.isLiquidation
    · rw [if_pos hneeds, if_pos (by exact hneeds)]
      rfl
    · rw [if_neg hneeds, if_neg (by exact hneeds)]
      by_cases hsymbol : c.maxSymbols ≤ order.symbolId
      · rw [if_pos hsymbol, if_pos (by exact hsymbol)]
        rfl
      · rw [if_neg hsymbol, if_neg (by exact hsymbol)]
        have hcheck : c.detached.margin.checkOrder (s.detached.account order.userId)
            (c.detached.iterPositionsForUser order.userId) order c.detached.fallbackMarkPrices
            (c.detached.takerFeeBps order.symbolId) (c.detached.frozenForUser order.userId) =
          c.margin.checkOrder (s.account order.userId) (c.iterPositionsForUser order.userId) order
            c.fallbackMarkPrices (c.takerFeeBps order.symbolId)
            (c.frozenForUser order.userId) := rfl
        rw [hcheck]
        generalize c.margin.checkOrder _ _ _ _ _ _ = answer
        cases answer <;> rfl
  · have hdetached : s.detached.processOrder order = _ := processOrder_invalid hvalid
    rw [hdetached, processOrder_invalid hvalid]
    rfl

theorem placeOrders_detached (ids : Nat → OrderId) (nowNs : Nat) (orders : List LiquidationOrder)
    (s : Shard) (rings : ShardRings) :
    placeOrders ids nowNs orders s.detached rings =
      (placeOrders ids nowNs orders s rings).map detached id := by
  induction orders generalizing s rings with
  | nil => rfl
  | cons liq rest ih =>
    have horder : s.detached.liqToOrder liq (ids rest.length) nowNs =
      s.liqToOrder liq (ids rest.length) nowNs := rfl
    unfold placeOrders
    by_cases hfull : rings.anyFull
    · rw [if_pos hfull, if_pos hfull]
      rfl
    · rw [if_neg hfull, if_neg hfull]
      dsimp only
      rw [horder, processOrder_detached]
      rcases s.processOrder (s.liqToOrder liq (ids rest.length) nowNs) with ⟨s', answer⟩
      cases answer <;> exact ih s' _

theorem processSocializedLoss_detached (s : Shard) (loss : SocializedLoss) (nowNs : Nat) :
    s.detached.processSocializedLoss loss nowNs =
      (s.processSocializedLoss loss nowNs).map detached id := by
  unfold processSocializedLoss
  rw [show s.detached.accounts = s.accounts from rfl]
  cases s.accounts loss.userId with
  | none => rfl
  | some account =>
    dsimp only
    rw [apply_ite (Prod.map detached id)]
    rfl

theorem socializeLosses_detached (nowNs : Nat) (losses : List SocializedLoss) (s : Shard)
    (rings : ShardRings) :
    socializeLosses nowNs losses s.detached rings =
      (socializeLosses nowNs losses s rings).map detached id := by
  induction losses generalizing s rings with
  | nil => rfl
  | cons loss rest ih =>
    unfold socializeLosses
    rw [processSocializedLoss_detached]
    rcases s.processSocializedLoss loss nowNs with ⟨s', notice⟩
    cases notice <;> exact ih s' _

theorem foldl_detached {α : Type} {step : Shard → α → Shard}
    (hstep : ∀ s a, step (detached s) a = (step s a).detached) (s : Shard) (actions : List α) :
    actions.foldl step s.detached = (actions.foldl step s).detached := by
  induction actions generalizing s with
  | nil => rfl
  | cons a actions ih =>
    rw [List.foldl_cons, hstep, ih]
    rfl

theorem drainSymbol_detached (nowNs : Nat) (s : Shard) (sid : Nat) :
    drainSymbol nowNs s.detached sid = (drainSymbol nowNs s sid).detached := by
  unfold drainSymbol
  rw [show s.detached.stashedBbo = s.stashedBbo from rfl]
  cases s.stashedBbo sid with
  | none => rfl
  | some bbo =>
    have hbbo : ({ s.detached with
        stashedBbo := update s.stashedBbo sid none } : Shard).processBbo bbo =
        ({ s with stashedBbo := update s.stashedBbo sid none }.processBbo bbo).detached :=
      processBbo_detached { s with stashedBbo := update s.stashedBbo sid none } bbo
    dsimp only
    rw [hbbo]
    exact foldl_detached (fun s other => checkLiquidationFor_detached s other nowNs) _ _

theorem drainStashedBbos_detached (s : Shard) (nowNs : Nat) :
    s.detached.drainStashedBbos nowNs = (s.drainStashedBbos nowNs).detached :=
  foldl_detached (drainSymbol_detached nowNs) s _

theorem payFunding_detached (s : Shard) (userId : Nat) (amount : Int) :
    s.detached.payFunding userId amount = (s.payFunding userId amount).detached := by
  rw [payFunding_eq, payFunding_eq]
  rfl

theorem charge_detached (s : Shard) (charges : List (Nat × Int)) :
    s.detached.charge charges = (s.charge charges).detached :=
  foldl_detached (fun s (userId, amount) => payFunding_detached s userId amount) s charges

theorem trySettleInterval_detached (s : Shard) (sid id nowSecs : Nat) :
    s.detached.trySettleInterval sid id nowSecs =
      (s.trySettleInterval sid id nowSecs).map detached := by
  have hcharge := s.charge_detached (s.fundingCharges sid)
  rw [trySettleInterval_eq, trySettleInterval_eq, apply_ite (Option.map detached)]
  refine if_congr Iff.rfl rfl (congrArg some ?_)
  refine (congrArg (fun charged : Shard =>
    { charged.pushAll [.fundingSettlement (s.detached.settlementOf sid id nowSecs)] with
      fundingSettled := update s.fundingSettled sid (some id) }) hcharge).trans ?_
  rfl

theorem settleIntervals_detached (sid nowSecs count id : Nat) (s : Shard) :
    settleIntervals sid nowSecs count id s.detached =
      (settleIntervals sid nowSecs count id s).detached := by
  induction count generalizing s id with
  | zero => rfl
  | succ count ih =>
    unfold settleIntervals
    rw [trySettleInterval_detached]
    cases s.trySettleInterval sid id nowSecs with
    | none => rfl
    | some s' => exact ih _ s'

theorem settleSymbolFunding_detached (nowSecs : Nat) (s : Shard) (sid : Nat) :
    settleSymbolFunding nowSecs s.detached sid = (settleSymbolFunding nowSecs s sid).detached := by
  unfold settleSymbolFunding
  rw [show s.detached.margin = s.margin from rfl]
  cases s.margin.symbolParams sid with
  | none => rfl
  | some => exact settleIntervals_detached ..

theorem maybeSettleFunding_detached (s : Shard) (nowSecs : Nat) :
    s.detached.maybeSettleFunding nowSecs = (s.maybeSettleFunding nowSecs).detached := by
  unfold maybeSettleFunding
  rw [apply_ite detached]
  refine if_congr Iff.rfl rfl ?_
  exact foldl_detached (settleSymbolFunding_detached nowSecs)
    { s with fundingCheckedSecs := nowSecs } _

theorem applySymbolConfig_detached (s : Shard) (config : SymbolRiskConfig) :
    s.detached.applySymbolConfig config = (s.applySymbolConfig config).detached := by
  unfold applySymbolConfig
  rw [apply_ite detached, apply_ite detached]
  rfl

theorem drainConfigUpdates_detached (s : Shard) :
    s.detached.drainConfigUpdates = s.drainConfigUpdates.detached := by
  change { List.foldl applySymbolConfig s.detached s.configUpdates with configUpdates := [] } = _
  rw [foldl_detached applySymbolConfig_detached]
  rfl

theorem beforeQuotes_detached (s : Shard) (rings : ShardRings) (nowSecs : Nat)
    (ids : Nat → OrderId) :
    s.detached.beforeQuotes rings nowSecs ids =
      (s.beforeQuotes rings nowSecs ids).map detached id := by
  unfold beforeQuotes
  dsimp only
  rw [drainConfigUpdates_detached, apply_ite (Prod.map detached id)]
  refine if_congr Iff.rfl rfl ?_
  generalize s.drainConfigUpdates = s₀
  have hfresh : (s₀.detached.drainPendingCancels rings).1.freshPrices =
      (s₀.drainPendingCancels rings).1.freshPrices.detached :=
    freshPrices_detached (s₀.drainPendingCancels rings).1
  rw [hfresh]
  generalize (s₀.drainPendingCancels rings).1.freshPrices = s₁
  rw [show s₁.detached.dueSteps (nowSecs * 1000000000) = s₁.dueSteps (nowSecs * 1000000000)
    from rfl]
  generalize s₁.dueSteps (nowSecs * 1000000000) = due
  have hplaced : placeOrders ids (nowSecs * 1000000000) due.2.1
      { s₁.detached with liquidation := due.1 } (s₀.detached.drainPendingCancels rings).2 = _ :=
    placeOrders_detached ids (nowSecs * 1000000000) due.2.1 { s₁ with liquidation := due.1 }
      (s₀.drainPendingCancels rings).2
  rw [hplaced]
  rcases placeOrders ids (nowSecs * 1000000000) due.2.1 { s₁ with liquidation := due.1 }
    (s₀.drainPendingCancels rings).2 with ⟨s₂, rings₂, done⟩
  cases done with
  | false => rfl
  | true =>
    dsimp only [Prod.map, id]
    rw [socializeLosses_detached]
    rfl

theorem tick_detached (s : Shard) (rings : ShardRings) (nowSecs : Nat) (ids : Nat → OrderId) :
    s.detached.tick rings nowSecs ids = (s.tick rings nowSecs ids).map detached id := by
  unfold tick
  rw [beforeQuotes_detached]
  rcases s.beforeQuotes rings nowSecs ids with ⟨_, _, done⟩
  cases done with
  | false => rfl
  | true =>
    dsimp only [Prod.map, id]
    rw [drainStashedBbos_detached, maybeSettleFunding_detached]

end Shard

end Rsx.Risk
