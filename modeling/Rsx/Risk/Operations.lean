import Rsx.Risk.Checks
import Rsx.Risk.Conservation
import Rsx.Risk.Solvency

/-!
# The operations of a shard

Everything that changes a shard, and what each operation leaves alone.  `tick` is cut before it
applies the stashed quotes: the steps before that book nothing and move no price.  -/

namespace Rsx.Risk

open Function Book

inductive RiskOp
  | fill (event : FillEvent)
  | order (request : OrderRequest)
  | bbo (update : BboUpdate)
  | stashBbo (update : BboUpdate)
  | mark (symbolId : Nat) (price : Int)
  | confirmFreeze (userId : Nat) (orderId : OrderId) (symbolId : Nat)
  | releaseFrozen (userId : Nat) (orderId : OrderId)
  | replayFreeze (userId : Nat) (orderId : OrderId) (price qty : Int) (symbolId : Nat)
  | configUpdate (config : SymbolRiskConfig)
  | configApplied (symbolId configVersion : Nat)
  | tick (rings : ShardRings) (nowSecs : Nat) (ids : Nat → OrderId)

namespace Shard

variable {s s' s₁ s₂ : Shard}
  {accounts : Nat → Option Account}

def perform (s : Shard) : RiskOp → Shard
  | .fill event => s.processFill event
  | .order request => (s.processOrder request).1
  | .bbo update => s.processBbo update
  | .stashBbo update => s.stashBbo update
  | .mark symbolId price => s.updateMark symbolId price
  | .confirmFreeze userId orderId symbolId => s.confirmFreeze userId orderId symbolId
  | .releaseFrozen userId orderId => s.releaseFrozenForOrder userId orderId
  | .replayFreeze userId orderId price qty symbolId =>
    s.replayFreezeOrder userId orderId price qty symbolId
  | .configUpdate config => { s with configUpdates := s.configUpdates ++ [config] }
  | .configApplied symbolId configVersion => s.processConfigApplied symbolId configVersion
  | .tick rings nowSecs ids => (s.tick rings nowSecs ids).1

/-! ## What is kept -/

def PricesKept (s s' : Shard) : Prop :=
  s'.markPrices = s.markPrices ∧ s'.indexPrices = s.indexPrices ∧
    (s'.fallbackMarkPrices = s.fallbackMarkPrices ∧ s'.markDirty = s.markDirty ∨
      s'.fallbackMarkPrices = s.fallbackPrice ∧ s'.markDirty = false)

/-- No fill is booked, no quote applied, and no account removed. -/
structure Keeps (s s' : Shard) : Prop where
  shard : s'.shardId = s.shardId ∧ s'.shardCount = s.shardCount ∧ s'.maxSymbols = s.maxSymbols
  positions : s'.positions = s.positions
  exposure : s'.exposure = s.exposure
  stashed : s'.stashedBbo = s.stashedBbo
  accounts : ∀ userId, s.accounts userId ≠ none → s'.accounts userId ≠ none
  prices : s.PricesKept s'

theorem PricesKept.fallbackPrice_eq (h : s.PricesKept s') : s'.fallbackPrice = s.fallbackPrice := by
  funext symbolId
  rw [fallbackPrice, h.1, h.2.1]
  rfl

theorem PricesKept.refl (s : Shard) : s.PricesKept s :=
  ⟨rfl, rfl, .inl ⟨rfl, rfl⟩⟩

theorem PricesKept.trans (h : s.PricesKept s₁) (h' : s₁.PricesKept s₂) : s.PricesKept s₂ := by
  refine ⟨h'.1.trans h.1, h'.2.1.trans h.2.1, ?_⟩
  rcases h'.2.2 with ⟨hcache, hdirty⟩ | ⟨hcache, hdirty⟩
  · exact h.2.2.imp (fun h => ⟨hcache.trans h.1, hdirty.trans h.2⟩)
      fun h => ⟨hcache.trans h.1, hdirty.trans h.2⟩
  · exact .inr ⟨hcache.trans h.fallbackPrice_eq, hdirty⟩

theorem PricesKept.cached (h : s.PricesKept s') (hcached : s.PricesCached) : s'.PricesCached := by
  intro hclean
  rw [h.fallbackPrice_eq]
  rcases h.2.2 with ⟨hcache, hdirty⟩ | ⟨hcache, -⟩
  · exact hcache.trans (hcached (hdirty ▸ hclean))
  · exact hcache

theorem Keeps.refl (s : Shard) : s.Keeps s :=
  ⟨⟨rfl, rfl, rfl⟩, rfl, rfl, rfl, fun _ h => h, .refl s⟩

theorem Keeps.trans (h : s.Keeps s₁) (h' : s₁.Keeps s₂) : s.Keeps s₂ :=
  ⟨⟨h'.shard.1.trans h.shard.1, h'.shard.2.1.trans h.shard.2.1, h'.shard.2.2.trans h.shard.2.2⟩,
    h'.positions.trans h.positions, h'.exposure.trans h.exposure, h'.stashed.trans h.stashed,
    fun userId hsome => h'.accounts userId (h.accounts userId hsome), h.prices.trans h'.prices⟩

/-- The step leaves the liquidation engine and the queued cancels alone as well. -/
structure Still (s s' : Shard) : Prop extends s.Keeps s' where
  engine : s'.liquidation = s.liquidation
  cancels : s'.pendingCancels = s.pendingCancels

theorem Still.refl (s : Shard) : s.Still s :=
  ⟨.refl s, rfl, rfl⟩

theorem Still.trans (h : s.Still s₁) (h' : s₁.Still s₂) : s.Still s₂ :=
  ⟨h.toKeeps.trans h'.toKeeps, h'.engine.trans h.engine, h'.cancels.trans h.cancels⟩

/-- The step leaves the configuration and the funding clock alone. -/
structure Steady (s s' : Shard) : Prop extends s.Keeps s' where
  margin : s'.margin = s.margin
  funding : s'.fundingIntervalSecs = s.fundingIntervalSecs ∧
    s'.fundingSettled = s.fundingSettled ∧ s'.fundingCheckedSecs = s.fundingCheckedSecs

theorem Steady.trans (h : s.Steady s₁) (h' : s₁.Steady s₂) : s.Steady s₂ :=
  ⟨h.toKeeps.trans h'.toKeeps, h'.margin.trans h.margin, h'.funding.1.trans h.funding.1,
    h'.funding.2.1.trans h.funding.2.1, h'.funding.2.2.trans h.funding.2.2⟩

/-- Only accounts, freezes, funds, the price cache and the persist ring may change. -/
structure Calm (s s' : Shard) : Prop extends s.Still s', s.Steady s'

theorem Calm.refl (s : Shard) : s.Calm s :=
  ⟨.refl s, rfl, rfl, rfl, rfl⟩

theorem Calm.trans (h : s.Calm s₁) (h' : s₁.Calm s₂) : s.Calm s₂ :=
  { h.toStill.trans h'.toStill, h.toSteady.trans h'.toSteady with }

theorem calm_update (s : Shard)
    (haccounts : ∀ userId, s.accounts userId ≠ none → accounts userId ≠ none)
    (frozenOrders : OrderId → Option Freeze) (frozenByUser : Nat → List (OrderId × Int))
    (insuranceFunds : Nat → Option InsuranceFund) (persist : Option (List PersistEvent)) :
    s.Calm { s with
      accounts := accounts, frozenOrders := frozenOrders, frozenByUser := frozenByUser
      insuranceFunds := insuranceFunds, persist := persist } :=
  ⟨⟨⟨⟨rfl, rfl, rfl⟩, rfl, rfl, rfl, haccounts, .refl s⟩, rfl, rfl⟩, rfl, rfl, rfl, rfl⟩

theorem calm_freshPrices (s : Shard) : s.Calm s.freshPrices := by
  unfold freshPrices
  split
  · have hprices : s.PricesKept s.rebuildFallback := ⟨rfl, rfl, .inr ⟨rfl, rfl⟩⟩
    exact ⟨⟨⟨⟨rfl, rfl, rfl⟩, rfl, rfl, rfl, fun _ h => h, hprices⟩, rfl, rfl⟩, rfl, rfl, rfl, rfl⟩
  · exact .refl s

theorem calm_ensureAccount (s : Shard) (userId : Nat) : s.Calm (s.ensureAccount userId) := by
  rw [ensureAccount_eq]
  exact s.calm_update (fun _ h => update_ne_none_iff.2 (.inr h)) _ _ _ _

theorem calm_checked (s : Shard) (userId : Nat) : s.Calm (s.checked userId) :=
  (s.calm_ensureAccount userId).trans (calm_freshPrices _)

theorem calm_freeze (s : Shard) (userId symbolId : Nat) (orderId : OrderId) (amount : Int) :
    s.Calm (s.freeze userId symbolId orderId amount) :=
  s.calm_update (fun _ h => h) _ _ _ _

theorem processOrder_invalid {order : OrderRequest}
    (h : ¬ (s.userInShard order.userId ∧ 0 < order.price ∧ 0 < order.qty)) :
    s.processOrder order = (s, .rejected order.userId
      (if s.userInShard order.userId then .insufficientMargin else .notInShard) order.orderId) := by
  unfold processOrder
  by_cases hshard : s.userInShard order.userId
  · rw [if_neg (not_not.2 hshard), if_pos, if_pos hshard]
    by_contra hpositive
    exact h ⟨hshard, by omega, by omega⟩
  · rw [if_pos hshard, if_neg hshard]

theorem calm_processOrder (s : Shard) (order : OrderRequest) : s.Calm (s.processOrder order).1 := by
  by_cases hvalid : s.userInShard order.userId ∧ 0 < order.price ∧ 0 < order.qty
  · have hchecked := s.calm_checked order.userId
    rw [processOrder_eq hvalid.1 hvalid.2.1 hvalid.2.2]
    dsimp only
    split
    · exact hchecked
    · split
      · exact hchecked
      · split
        · exact hchecked.trans (calm_freeze ..)
        · exact hchecked
  · rw [processOrder_invalid hvalid]
    exact .refl s

theorem calm_pushAll (s : Shard) (events : List PersistEvent) : s.Calm (s.pushAll events) :=
  s.calm_update (fun _ h => h) _ _ _ _

theorem calm_confirmFreeze (s : Shard) (userId : Nat) (orderId : OrderId) (symbolId : Nat) :
    s.Calm (s.confirmFreeze userId orderId symbolId) := by
  rw [confirmFreeze_eq]
  exact s.calm_pushAll _

theorem calm_releaseFrozenForOrder (s : Shard) (userId : Nat) (orderId : OrderId) :
    s.Calm (s.releaseFrozenForOrder userId orderId) := by
  rw [releaseFrozenForOrder_eq]
  split
  · exact s.calm_update (fun _ h => h) _ _ _ _
  · exact .refl s

theorem calm_replayFreezeOrder (s : Shard) (userId : Nat) (orderId : OrderId) (price qty : Int)
    (symbolId : Nat) : s.Calm (s.replayFreezeOrder userId orderId price qty symbolId) := by
  have hensure := s.calm_ensureAccount userId
  unfold replayFreezeOrder
  dsimp only
  split
  · exact hensure
  · exact hensure.trans (calm_freeze ..)

theorem calm_processConfigApplied (s : Shard) (symbolId configVersion : Nat) :
    s.Calm (s.processConfigApplied symbolId configVersion) := by
  unfold processConfigApplied
  split
  · exact .refl s
  · exact s.calm_pushAll [_]

theorem calm_processSocializedLoss (s : Shard) (loss : SocializedLoss) (nowNs : Nat) :
    s.Calm (s.processSocializedLoss loss nowNs).1 := by
  rcases s.processSocializedLoss_cases loss nowNs with hnone | ⟨account, notice, -, -, hloss⟩
  · rw [hnone]
    exact .refl s
  · rw [hloss]
    exact s.calm_update (fun _ h => update_ne_none_iff.2 (.inr h)) _ _ _ _

theorem still_charge (s : Shard) (charges : List (Nat × Int)) : s.Still (s.charge charges) := by
  have hgrows := s.grows_charge charges
  obtain ⟨_, hframe⟩ := s.charge_frame charges
  rw [hframe] at hgrows ⊢
  exact ⟨⟨⟨rfl, rfl, rfl⟩, rfl, rfl, rfl, hgrows.1, .refl s⟩, rfl, rfl⟩

theorem still_trySettleInterval {sid id nowSecs : Nat}
    (h : s.trySettleInterval sid id nowSecs = some s') : s.Still s' := by
  obtain rfl := trySettleInterval_some h
  have hcharge := s.still_charge (s.fundingCharges sid)
  exact { hcharge with }

theorem still_settleIntervals (sid nowSecs count id : Nat) (s : Shard) :
    s.Still (settleIntervals sid nowSecs count id s) := by
  induction count generalizing s id with
  | zero => exact .refl s
  | succ count ih =>
    unfold settleIntervals
    split <;> rename_i hsettle
    · exact (still_trySettleInterval hsettle).trans (ih _ _)
    · exact .refl s

theorem still_foldl {α : Type} {step : Shard → α → Shard}
    (hstep : ∀ (s : Shard) (a : α), s.Still (step s a))
    (s : Shard) (actions : List α) : s.Still (actions.foldl step s) := by
  induction actions generalizing s with
  | nil => exact .refl s
  | cons a actions ih => exact (hstep s a).trans (ih _)

theorem still_settleSymbolFunding (nowSecs : Nat) (s : Shard) (sid : Nat) :
    s.Still (settleSymbolFunding nowSecs s sid) := by
  unfold settleSymbolFunding
  split
  · exact .refl s
  · exact still_settleIntervals ..

theorem still_maybeSettleFunding (s : Shard) (nowSecs : Nat) :
    s.Still (s.maybeSettleFunding nowSecs) := by
  unfold maybeSettleFunding
  split
  · exact .refl s
  · have hchecked : s.Still { s with fundingCheckedSecs := nowSecs } :=
      ⟨⟨⟨rfl, rfl, rfl⟩, rfl, rfl, rfl, fun _ h => h, .refl s⟩, rfl, rfl⟩
    exact hchecked.trans (still_foldl (still_settleSymbolFunding nowSecs) _ _)

theorem still_applySymbolConfig (s : Shard) (config : SymbolRiskConfig) :
    s.Still (s.applySymbolConfig config) := by
  unfold applySymbolConfig
  dsimp only
  split
  · exact .refl s
  · split
    · exact .refl s
    · exact ⟨⟨⟨rfl, rfl, rfl⟩, rfl, rfl, rfl, fun _ h => h, .refl s⟩, rfl, rfl⟩

theorem still_drainConfigUpdates (s : Shard) : s.Still s.drainConfigUpdates := by
  have hfold := still_foldl still_applySymbolConfig s s.configUpdates
  exact { hfold with }

/-! ## The tick before the quotes -/

def Unstalled (s : Shard) (rings : ShardRings) (nowSecs : Nat) (ids : Nat → OrderId) : Prop :=
  (s.beforeQuotes rings nowSecs ids).2.2 = true
  deriving Decidable

theorem calm_placeOrders (ids : Nat → OrderId) (nowNs : Nat) (orders : List LiquidationOrder)
    (s : Shard) (rings : ShardRings) : s.Calm (placeOrders ids nowNs orders s rings).1 := by
  induction orders generalizing s rings with
  | nil => exact .refl s
  | cons liq orders ih =>
    unfold placeOrders
    split
    · exact .refl s
    · have horder := s.calm_processOrder (s.liqToOrder liq (ids orders.length) nowNs)
      dsimp only
      split <;> rename_i hplace
      · rw [hplace] at horder
        exact horder.trans (ih _ _)
      · rw [hplace] at horder
        exact horder.trans (ih _ _)

theorem calm_socializeLosses (nowNs : Nat) (losses : List SocializedLoss) (s : Shard)
    (rings : ShardRings) : s.Calm (socializeLosses nowNs losses s rings).1 := by
  induction losses generalizing s rings with
  | nil => exact .refl s
  | cons loss losses ih =>
    have hloss := s.calm_processSocializedLoss loss nowNs
    unfold socializeLosses
    split <;> rename_i hcase
    · rw [hcase] at hloss
      exact hloss.trans (ih _ _)
    · rw [hcase] at hloss
      exact hloss.trans (ih _ _)

/-- A relation that holds across each step before the quotes holds across all of them. -/
theorem beforeQuotes_rel {R : Shard → Shard → Prop}
    (htrans : ∀ {s s₁ s₂ : Shard}, R s s₁ → R s₁ s₂ → R s s₂)
    (hcalm : ∀ {s s' : Shard}, s.Calm s' → R s s')
    (hcancels : ∀ (s : Shard) (rings : ShardRings), R s (s.drainPendingCancels rings).1)
    (hdue : ∀ (s : Shard) (nowNs : Nat), R s { s with liquidation := (s.dueSteps nowNs).1 })
    (hdone : ∀ s : Shard, R s { s with liquidation := s.liquidation.removeDone })
    (s : Shard) (rings : ShardRings) (nowSecs : Nat) (ids : Nat → OrderId) :
    R s.drainConfigUpdates (s.beforeQuotes rings nowSecs ids).1 := by
  unfold beforeQuotes
  dsimp only
  generalize s.drainConfigUpdates = s₀
  split
  · exact hcalm (.refl s₀)
  · have hfresh := htrans (hcancels s₀ rings) (hcalm (calm_freshPrices _))
    generalize (s₀.drainPendingCancels rings).1.freshPrices = s₁ at *
    have hplaced := htrans (htrans hfresh (hdue s₁ (nowSecs * 1000000000))) <|
      hcalm (calm_placeOrders ids (nowSecs * 1000000000) (s₁.dueSteps (nowSecs * 1000000000)).2.1 _
        (s₀.drainPendingCancels rings).2)
    split <;> rename_i s₂ rings₂ hplace
    · rw [hplace] at hplaced
      exact hplaced
    · rw [hplace] at hplaced
      have hlosses := htrans hplaced (hcalm (calm_socializeLosses (nowSecs * 1000000000)
        (s₁.dueSteps (nowSecs * 1000000000)).2.2 s₂ rings₂))
      exact htrans hlosses (hdone _)

theorem steady_beforeQuotes (s : Shard) (rings : ShardRings) (nowSecs : Nat) (ids : Nat → OrderId) :
    s.drainConfigUpdates.Steady (s.beforeQuotes rings nowSecs ids).1 :=
  beforeQuotes_rel .trans Calm.toSteady (fun s _ => { (Calm.refl s).toSteady with })
    (fun s _ => { (Calm.refl s).toSteady with }) (fun s => { (Calm.refl s).toSteady with })
    s rings nowSecs ids

theorem keeps_beforeQuotes (s : Shard) (rings : ShardRings) (nowSecs : Nat) (ids : Nat → OrderId) :
    s.Keeps (s.beforeQuotes rings nowSecs ids).1 :=
  s.still_drainConfigUpdates.toKeeps.trans (s.steady_beforeQuotes rings nowSecs ids).toKeeps

theorem tick_eq (s : Shard) (rings : ShardRings) (nowSecs : Nat) (ids : Nat → OrderId) :
    (s.tick rings nowSecs ids).1 =
      if s.Unstalled rings nowSecs ids then
        ((s.beforeQuotes rings nowSecs ids).1.drainStashedBbos
          (nowSecs * 1000000000)).maybeSettleFunding nowSecs
      else (s.beforeQuotes rings nowSecs ids).1 := by
  unfold tick
  split <;> rename_i hcase
  · rw [if_neg (by rw [Unstalled, hcase]; exact Bool.false_ne_true), hcase]
  · rw [if_pos (by rw [Unstalled, hcase]), hcase]

/-! ## One operation -/

/-- A price, a quote or a config is stored, and nothing else changes. -/
structure Stores (s s' : Shard) : Prop where
  frame : ∃ marks index dirty stash configs, s' = { s with
    markPrices := marks, indexPrices := index, markDirty := dirty, stashedBbo := stash
    configUpdates := configs }
  prices : s'.markDirty = true ∨ s'.markPrices = s.markPrices ∧ s'.indexPrices = s.indexPrices ∧
    s'.markDirty = s.markDirty
  stash : ∀ sid, ∀ bbo ∈ s'.stashedBbo sid,
    bbo ∈ s.stashedBbo sid ∨ bbo.symbolId = sid ∧ sid < s.maxSymbols

/-- Fills and ticks apart, an operation is calm or stores something. -/
theorem perform_cases (s : Shard) : ∀ op : RiskOp, (∃ event, op = .fill event) ∨
    (∃ rings nowSecs ids, op = .tick rings nowSecs ids) ∨ s.Calm (s.perform op) ∨
      s.Stores (s.perform op)
  | .fill event => .inl ⟨event, rfl⟩
  | .tick rings nowSecs ids => .inr (.inl ⟨rings, nowSecs, ids, rfl⟩)
  | .order request => .inr (.inr (.inl (s.calm_processOrder request)))
  | .confirmFreeze .. => .inr (.inr (.inl (s.calm_confirmFreeze ..)))
  | .releaseFrozen .. => .inr (.inr (.inl (s.calm_releaseFrozenForOrder ..)))
  | .replayFreeze .. => .inr (.inr (.inl (s.calm_replayFreezeOrder ..)))
  | .configApplied .. => .inr (.inr (.inl (s.calm_processConfigApplied ..)))
  | .configUpdate _ =>
      .inr (.inr (.inr ⟨⟨_, _, _, _, _, rfl⟩, .inr ⟨rfl, rfl, rfl⟩, fun _ _ => .inl⟩))
  | .bbo quote => by
    refine .inr (.inr ?_)
    unfold perform processBbo
    dsimp only
    split
    · exact .inl (.refl s)
    · exact .inr ⟨⟨_, _, _, _, _, rfl⟩, .inl rfl, fun _ _ => .inl⟩
  | .mark symbolId price => by
    refine .inr (.inr ?_)
    unfold perform updateMark
    dsimp only
    split
    · exact .inl (.refl s)
    · exact .inr ⟨⟨_, _, _, _, _, rfl⟩, .inl rfl, fun _ _ => .inl⟩
  | .stashBbo quote => by
    refine .inr (.inr ?_)
    unfold perform stashBbo
    dsimp only
    split <;> rename_i hsymbol
    · exact .inl (.refl s)
    · refine .inr ⟨⟨_, _, _, _, _, rfl⟩, .inr ⟨rfl, rfl, rfl⟩, fun sid bbo hbbo => ?_⟩
      rcases eq_or_ne sid quote.symbolId with rfl | hne
      · cases (update_self _ _ s.stashedBbo).symm.trans hbbo
        exact .inr ⟨rfl, not_le.1 hsymbol⟩
      · exact .inl ((update_of_ne hne _ _).symm.trans hbbo)

end Shard

end Rsx.Risk
