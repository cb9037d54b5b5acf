import Rsx.Risk.Operations

/-!
# Liquidation without a price

A symbol without a mark and without a valid index counts at a price of zero.  A check takes the
decision of the priced symbols alone for every user whose open positions are all priced.
-/

namespace Rsx.Risk

open Function Book List PortfolioMargin Position

namespace Shard

variable {s s' : Shard} {userId nowNs : Nat}
  {sums : PortfolioMargin.Sums} {symbols : List Nat}

/-! ## The cached prices in every run -/

theorem PricesCached.processBbo (h : s.PricesCached) (bbo : BboUpdate) :
    (s.processBbo bbo).PricesCached := by
  unfold Shard.processBbo
  split
  · exact h
  · intro hclean
    cases hclean

theorem PricesCached.foldl_check (h : s.PricesCached) (users : List Nat) (nowNs : Nat) :
    (users.foldl (fun s other => s.checkLiquidationFor other nowNs) s).PricesCached := by
  induction users generalizing s with
  | nil => exact h
  | cons other users ih => exact ih (checkLiquidationFor_keeps h other nowNs).1

def quoted (s : Shard) (sid : Nat) (bbo : BboUpdate) : Shard :=
  { s with stashedBbo := update s.stashedBbo sid none }.processBbo bbo

section

variable (h : s.PricesCached)
include h

theorem PricesCached.quoted (sid : Nat) (bbo : BboUpdate) : (s.quoted sid bbo).PricesCached := by
  have hcleared : PricesCached { s with stashedBbo := update s.stashedBbo sid none } :=
    h.congr rfl rfl rfl rfl
  exact hcleared.processBbo bbo

theorem PricesCached.drainSymbol (nowNs sid : Nat) : (drainSymbol nowNs s sid).PricesCached := by
  unfold Shard.drainSymbol
  split
  · exact h
  · exact (h.quoted sid _).foldl_check _ nowNs

theorem PricesCached.drainStashedBbos (nowNs : Nat) : (s.drainStashedBbos nowNs).PricesCached := by
  unfold Shard.drainStashedBbos
  generalize List.range s.maxSymbols = symbols
  induction symbols generalizing s with
  | nil => exact h
  | cons sid symbols ih => exact ih (h.drainSymbol nowNs sid)

theorem PricesCached.tick (rings : ShardRings) (nowSecs : Nat)
    (ids : Nat → OrderId) : (s.tick rings nowSecs ids).1.PricesCached := by
  have hbefore := (s.keeps_beforeQuotes rings nowSecs ids).prices.cached h
  rw [tick_eq]
  split
  · exact (still_maybeSettleFunding _ nowSecs).prices.cached (hbefore.drainStashedBbos _)
  · exact hbefore

theorem PricesCached.bookFill (fill : FillEvent) : (s.bookFill fill).PricesCached := by
  obtain ⟨_, _, _, hbook⟩ := s.bookFill_frame fill
  rw [hbook]
  exact h.congr rfl rfl rfl rfl

theorem PricesCached.processFill (fill : FillEvent) : (s.processFill fill).PricesCached := by
  unfold Shard.processFill
  split
  · exact h
  · rw [persistFill_eq]
    have hchecked := ((h.bookFill fill).foldl_check [fill.takerUserId, fill.makerUserId]
      fill.timestampNs)
    exact hchecked.congr rfl rfl rfl rfl

theorem PricesCached.perform (op : RiskOp) : (s.perform op).PricesCached := by
  rcases s.perform_cases op with ⟨event, rfl⟩ | ⟨rings, nowSecs, ids, rfl⟩ | hcalm | hstores
  · exact h.processFill event
  · exact h.tick rings nowSecs ids
  · exact hcalm.prices.cached h
  · rcases hstores.prices with hdirty | ⟨hmarks, hindex, hdirty⟩
    · exact fun hclean => absurd (hdirty.symm.trans hclean) Bool.noConfusion
    · obtain ⟨_, _, _, _, _, hframe⟩ := hstores.frame
      exact h.congr hmarks hindex (by rw [hframe]) hdirty

theorem PricesCached.run (ops : List RiskOp) : (ops.foldl Shard.perform s).PricesCached := by
  induction ops generalizing s with
  | nil => exact h
  | cons op ops ih => exact ih (h.perform op)

end

/-! ## Priced symbols -/

def IsPriced (s : Shard) (symbolId : Nat) : Prop :=
  s.markPrices symbolId ≠ 0 ∨ (s.indexPrices symbolId).valid ∧ 0 < (s.indexPrices symbolId).price
  deriving Decidable

/-- The margin of a user from the collateral and the priced symbols alone. -/
def pricedMargin (s : Shard) (userId : Nat) : MarginState :=
  s.margin.calculate (s.account userId)
    ((s.iterPositionsForUser userId).filter fun p => s.IsPriced p.symbolId) s.fallbackPrice
    (s.frozenForUser userId)

/-- Every position of the user in a configured symbol is priced, or shows no loss at the price zero
that stands for a missing one. -/
def NoUnpricedLoss (s : Shard) (userId : Nat) : Prop :=
  ∀ p ∈ s.iterPositionsForUser userId, (s.margin.symbolParams p.symbolId).isSome →
    s.IsPriced p.symbolId ∨ 0 ≤ (p.unrealizedPnl 0).getD i64Min
  deriving Decidable

def SumsFit (sums : Sums) : Prop :=
  FitsI64 sums.upnl ∧ FitsI64 sums.im ∧ FitsI64 sums.mm ∧ FitsI64 sums.gross

theorem sumsFit_addPosition (m : PortfolioMargin) (prices : Nat → Int)
    (h : SumsFit sums) (p : Position) : SumsFit (m.addPosition prices sums p) := by
  unfold addPosition
  split
  · exact h
  · exact ⟨sat64_mem _, sat64_mem _, sat64_mem _, sat64_mem _⟩

theorem requirement_zero (rate : Int) : requirement 0 rate = 0 := by
  rw [requirement, zero_mul]
  decide

theorem addPosition_empty (m : PortfolioMargin) (prices : Nat → Int)
    (h : SumsFit sums) {p : Position} (hempty : p.isEmpty) :
    m.addPosition prices sums p = sums := by
  obtain ⟨hlong, hshort⟩ := isEmpty_iff.1 hempty
  have hnet : p.netQty = 0 := by
    rw [netQty, hlong, hshort]
    decide
  have hnotional : p.notional (prices p.symbolId) = some 0 := by
    rw [notional, hnet, Int.natAbs_zero, Int.ofNat_zero, show wrap64 0 = 0 from rfl, zero_mul]
    decide
  have hgain : p.unrealizedPnl (prices p.symbolId) = some 0 := by
    rw [unrealizedPnl, if_pos hnet]
  obtain ⟨hupnl, him, hmm, hgross⟩ := h
  unfold addPosition
  split
  · rfl
  · dsimp only
    rw [hgain, hnotional]
    simp only [Option.getD_some, requirement_zero, add_zero, sat64_of_fits hupnl, sat64_of_fits him,
      sat64_of_fits hmm, sat64_of_fits hgross]

/-- The sums of the priced positions against those of all. -/
def Under (priced all : Sums) : Prop :=
  priced.upnl ≤ all.upnl ∧ all.mm = priced.mm

section

variable {priced all : Sums} {m : PortfolioMargin} {prices : Nat → Int} {p : Position}
  (h : Under priced all)
include h

theorem Under.add : Under (m.addPosition prices priced p) (m.addPosition prices all p) := by
  obtain ⟨hupnl, hmm⟩ := h
  unfold addPosition
  split
  · exact ⟨hupnl, hmm⟩
  · exact ⟨sat64_mono (by omega), by rw [hmm]⟩

theorem Under.skip (hsums : SumsFit all) (hprice : prices p.symbolId = 0)
    (hgain : 0 ≤ (p.unrealizedPnl 0).getD i64Min) : Under priced (m.addPosition prices all p) := by
  obtain ⟨hupnl, hmm⟩ := h
  have hnotional : p.notional 0 = some 0 := by
    rw [notional, mul_zero]
    rfl
  unfold addPosition
  split
  · exact ⟨hupnl, hmm⟩
  · dsimp only
    rw [hprice, hnotional, Option.getD_some, requirement_zero, requirement_zero]
    refine ⟨hupnl.trans ?_, ?_⟩
    · exact (sat64_of_fits hsums.1).symm.trans_le (sat64_mono (by omega))
    · dsimp only
      rw [add_zero, sat64_of_fits hsums.2.2.1, hmm]

theorem Under.foldl (keep : Position → Bool) {positions : List Position}
    (hsums : SumsFit all) (hdrop : ∀ p ∈ positions, ¬ keep p → m.symbolParams p.symbolId = none ∨
      prices p.symbolId = 0 ∧ 0 ≤ (p.unrealizedPnl 0).getD i64Min) :
    Under ((positions.filter keep).foldl (m.addPosition prices) priced)
      (positions.foldl (m.addPosition prices) all) := by
  induction positions generalizing priced all with
  | nil => exact h
  | cons p positions ih =>
    have hrest := fun q hq => hdrop q (mem_cons_of_mem p hq)
    have hsums' := sumsFit_addPosition m prices hsums p
    by_cases hkeep : keep p
    · rw [filter_cons_of_pos hkeep]
      exact ih h.add hsums' hrest
    · rw [filter_cons_of_neg hkeep]
      refine ih ?_ hsums' hrest
      rcases hdrop p mem_cons_self hkeep with hnone | ⟨hprice, hgain⟩
      · rw [addPosition_none all hnone]
        exact h
      · exact h.skip hsums hprice hgain

end

theorem fallbackPrice_of_not {symbolId : Nat} (h : ¬ s.IsPriced symbolId) :
    s.fallbackPrice symbolId = 0 := by
  obtain ⟨hmark, hindex⟩ := not_or.1 h
  rw [fallbackPrice, if_neg fun hvalid => hindex hvalid.2, not_not.1 hmark]

/-- The priced symbols alone keep the user above maintenance margin. -/
def SafePriced (s : Shard) (userId : Nat) : Prop :=
  (s.pricedMargin userId).maintenanceMargin ≤ (s.pricedMargin userId).equity
  deriving Decidable

theorem SafePriced.safe (h : s.SafePriced userId) (hloss : s.NoUnpricedLoss userId) :
    s.Safe userId := by
  have hsums : SumsFit {} := ⟨by decide, by decide, by decide, by decide⟩
  have hunder : Under {} {} := ⟨le_rfl, rfl⟩
  have hdrop : ∀ p ∈ s.iterPositionsForUser userId, ¬ decide (s.IsPriced p.symbolId) →
      s.margin.symbolParams p.symbolId = none ∨
        s.fallbackPrice p.symbolId = 0 ∧ 0 ≤ (p.unrealizedPnl 0).getD i64Min := by
    intro p hp hnot
    refine or_iff_not_imp_left.2 fun hsome => ?_
    have hunpriced := fun hpriced => hnot (decide_eq_true hpriced)
    have hgain := (hloss p hp (Option.isSome_iff_ne_none.2 hsome)).resolve_left hunpriced
    exact ⟨fallbackPrice_of_not hunpriced, hgain⟩
  have hall := hunder.foldl _ hsums hdrop
  refine decide_eq_false (not_lt.2 (hall.2.trans_le (h.trans (sat64_mono ?_))))
  exact add_le_add_right hall.1 _

/-! ## Fills and quotes -/

theorem quiet_processFill {fill : FillEvent} (hcached : s.PricesCached)
    (hsafe : (s.bookFill fill).Safe userId) : s.Quiet (s.processFill fill) userId := by
  by_cases hfresh : s.Fresh fill
  · have hchecks := quiet_foldl_check [fill.takerUserId, fill.makerUserId]
      (hcached.bookFill fill) hsafe fill.timestampNs
    obtain ⟨_, _, _, hbook⟩ := s.bookFill_frame fill
    have hstart : s.Quiet (s.bookFill fill) userId := by
      rw [hbook]
      exact ⟨fun _ hmem _ => hmem, rfl⟩
    have hfill : (s.processFill fill).liquidation = ([fill.takerUserId, fill.makerUserId].foldl
            (fun s other => s.checkLiquidationFor other fill.timestampNs)
            (s.bookFill fill)).liquidation ∧
        (s.processFill fill).pendingCancels = ([fill.takerUserId, fill.makerUserId].foldl
            (fun s other => s.checkLiquidationFor other fill.timestampNs)
            (s.bookFill fill)).pendingCancels := by
      unfold Shard.processFill
      unfold Fresh at hfresh
      rw [if_neg (by omega)]
      rw [persistFill_eq]
      exact ⟨rfl, rfl⟩
    obtain ⟨hentries, hcancels⟩ := hstart.trans hchecks
    refine ⟨?_, ?_⟩
    · rw [hfill.1]
      exact hentries
    · rw [hfill.2]
      exact hcancels
  · rw [processFill_of_not_fresh hfresh]
    exact .refl s userId

theorem quiet_drainSymbol {sid : Nat} (hcached : s.PricesCached)
    (hsafe : ∀ bbo ∈ s.stashedBbo sid, (s.quoted sid bbo).Safe userId) (nowNs : Nat) :
    s.Quiet (drainSymbol nowNs s sid) userId := by
  unfold drainSymbol
  split
  · exact .refl s userId
  · rename_i bbo hbbo
    have hchecks := quiet_foldl_check ((s.quoted sid bbo).exposure sid)
      (hcached.quoted sid bbo) (hsafe bbo hbbo) nowNs
    have hstart : s.Quiet (s.quoted sid bbo) userId := by
      unfold quoted processBbo
      split <;> exact ⟨fun _ hmem _ => hmem, rfl⟩
    exact hstart.trans hchecks

/-! ## Everything else a tick does -/

structure StartsNothing (s s' : Shard) (userId : Nat) : Prop where
  entries : ∀ symbolId, s'.liquidation.Live userId symbolId → s.liquidation.Live userId symbolId
  cancels : s'.pendingCancels.filter (·.userId = userId) <:+
    s.pendingCancels.filter (·.userId = userId)

theorem StartsNothing.trans {s₁ s₂ : Shard} (h : s.StartsNothing s₁ userId)
    (h' : s₁.StartsNothing s₂ userId) : s.StartsNothing s₂ userId :=
  ⟨fun symbolId hlive => h.entries symbolId (h'.entries symbolId hlive), h'.cancels.trans h.cancels⟩

theorem Quiet.startsNothing (h : s.Quiet s' userId) : s.StartsNothing s' userId := by
  refine ⟨?_, h.cancels ▸ suffix_rfl⟩
  rintro symbolId ⟨entry, hmem, huser, hsymbol, hstatus⟩
  exact ⟨entry, h.entries entry hmem huser, huser, hsymbol, hstatus⟩

theorem StartsNothing.of_eq (hengine : s'.liquidation = s.liquidation)
    (hcancels : s'.pendingCancels = s.pendingCancels) (userId : Nat) :
    s.StartsNothing s' userId :=
  ⟨fun _ hlive => hengine ▸ hlive, hcancels ▸ suffix_rfl⟩

theorem Still.startsNothing (h : s.Still s') (userId : Nat) : s.StartsNothing s' userId :=
  .of_eq h.engine h.cancels userId

theorem drainCancels_suffix (frozenOrders : OrderId → Option Freeze) (cancels : List CancelRequest)
    (me : Ring MeCommand) : (drainCancels frozenOrders cancels me).1 <:+ cancels := by
  induction cancels generalizing me with
  | nil => exact suffix_rfl
  | cons cancel cancels ih =>
    unfold drainCancels
    split
    · exact suffix_rfl
    · split
      · exact (ih _).trans (suffix_cons cancel cancels)
      · exact (ih _).trans (suffix_cons cancel cancels)

theorem startsNothing_drainPendingCancels (s : Shard) (rings : ShardRings) (userId : Nat) :
    s.StartsNothing (s.drainPendingCancels rings).1 userId :=
  ⟨fun _ hlive => hlive, (drainCancels_suffix _ _ _).filter _⟩

theorem processEntry_keeps (l : LiquidationEngine) (nowNs : Nat) (position : Nat → Nat → Int)
    (markPrice : Nat → Int) (state : LiquidationState) :
    let turn := (l.processEntry nowNs position markPrice state).1
    turn.userId = state.userId ∧ turn.symbolId = state.symbolId ∧
      (turn.status ≠ .done → state.status ≠ .done) := by
  unfold LiquidationEngine.processEntry
  dsimp only
  split
  · exact ⟨rfl, rfl, id⟩
  · rename_i hactive
    rw [not_not] at hactive
    have hlive : state.status ≠ .done := hactive ▸ nofun
    split
    · exact ⟨rfl, rfl, id⟩
    · split
      · exact ⟨rfl, rfl, fun _ => hlive⟩
      · split
        · exact ⟨rfl, rfl, id⟩
        · split <;> exact ⟨rfl, rfl, fun _ => hlive⟩

theorem startsNothing_dueSteps (s : Shard) (nowNs userId : Nat) :
    s.StartsNothing { s with liquidation := (s.dueSteps nowNs).1 } userId := by
  refine ⟨?_, suffix_rfl⟩
  rintro symbolId ⟨_, hmem, huser, hsymbol, hstatus⟩
  obtain ⟨_, hstep, rfl⟩ := mem_map.1 hmem
  obtain ⟨state, hstate, rfl⟩ := mem_map.1 hstep
  have hkeeps := processEntry_keeps s.liquidation nowNs s.signedPosition s.markFor state
  exact ⟨state, hstate, hkeeps.1 ▸ huser, hkeeps.2.1 ▸ hsymbol, hkeeps.2.2 hstatus⟩

theorem startsNothing_removeDone (s : Shard) (userId : Nat) :
    s.StartsNothing { s with liquidation := s.liquidation.removeDone } userId := by
  refine ⟨?_, suffix_rfl⟩
  rintro symbolId ⟨entry, hmem, hentry⟩
  exact ⟨entry, mem_of_mem_filter hmem, hentry⟩

theorem startsNothing_beforeQuotes (s : Shard) (rings : ShardRings) (nowSecs : Nat)
    (ids : Nat → OrderId) (userId : Nat) :
    s.StartsNothing (s.beforeQuotes rings nowSecs ids).1 userId := by
  refine (s.still_drainConfigUpdates.startsNothing userId).trans ?_
  exact beforeQuotes_rel .trans (fun hcalm => hcalm.toStill.startsNothing userId)
    (fun s rings => s.startsNothing_drainPendingCancels rings userId)
    (fun s nowNs => s.startsNothing_dueSteps nowNs userId)
    (fun s => s.startsNothing_removeDone userId) s rings nowSecs ids

/-! ## What an operation checks -/

/-- A point of an operation where users are checked: the state before it, the state whose positions
and prices the checks read, and the state after it. -/
structure Check where
  before : Shard
  read : Shard
  after : Shard

/-- The checks of `drain_stashed_bbos`, one for each stashed quote. -/
def drainChecks (nowNs : Nat) : List Nat → Shard → List Check
  | [], _ => []
  | sid :: symbols, s =>
    ((s.stashedBbo sid).map fun bbo => ⟨s, s.quoted sid bbo, drainSymbol nowNs s sid⟩).toList ++
      drainChecks nowNs symbols (drainSymbol nowNs s sid)

/-- The checks of an operation: after a fill is booked and after each drained quote. -/
def checksOf (s : Shard) : RiskOp → List Check
  | .fill event => if s.Fresh event then [⟨s, s.bookFill event, s.processFill event⟩] else []
  | .tick rings nowSecs ids =>
    match s.beforeQuotes rings nowSecs ids with
    | (_, _, false) => []
    | (s, _, true) => drainChecks (nowSecs * 1000000000) (List.range s.maxSymbols) s
  | _ => []

/-- The check is about a user above maintenance margin who has no loss in an unpriced symbol. -/
def Check.Clear (check : Check) (userId : Nat) : Prop :=
  check.read.NoUnpricedLoss userId ∧ check.read.SafePriced userId
  deriving Decidable

variable (hcached : s.PricesCached)
include hcached

theorem drainChecks_startNothing (nowNs : Nat) :
    ∀ check ∈ drainChecks nowNs symbols s, check.Clear userId →
      check.before.StartsNothing check.after userId := by
  induction symbols generalizing s with
  | nil => exact fun _ hmem => absurd hmem not_mem_nil
  | cons sid symbols ih =>
    intro check hmem hclear
    rcases mem_append.1 hmem with hhere | hrest
    · obtain ⟨_, hbbo, rfl⟩ := Option.map_eq_some_iff.1 (Option.mem_toList.1 hhere)
      refine (quiet_drainSymbol hcached (fun other hother => ?_) nowNs).startsNothing
      cases hbbo.symm.trans hother
      exact hclear.2.safe hclear.1
    · exact ih (hcached.drainSymbol nowNs sid) check hrest hclear

theorem startsNothing_drain (nowNs : Nat)
    (hclear : ∀ check ∈ drainChecks nowNs symbols s, check.Clear userId) :
    s.StartsNothing (symbols.foldl (drainSymbol nowNs) s) userId := by
  induction symbols generalizing s with
  | nil => exact .of_eq rfl rfl userId
  | cons sid symbols ih =>
    have hstep : s.StartsNothing (drainSymbol nowNs s sid) userId := by
      refine (quiet_drainSymbol hcached (fun bbo hbbo => ?_) nowNs).startsNothing
      have hcheck := hclear ⟨s, s.quoted sid bbo, drainSymbol nowNs s sid⟩
        (mem_append_left _ (by rw [hbbo]; exact mem_singleton_self _))
      exact hcheck.2.safe hcheck.1
    have hrest := ih (hcached.drainSymbol nowNs sid) fun check hmem =>
      hclear check (mem_append_right _ hmem)
    exact hstep.trans hrest

theorem checksOf_startNothing (op : RiskOp) : ∀ check ∈ s.checksOf op, check.Clear userId →
      check.before.StartsNothing check.after userId := by
  cases op with
  | fill =>
    unfold checksOf
    dsimp only
    split
    · intro check hmem hclear
      cases mem_singleton.1 hmem
      exact (quiet_processFill hcached (hclear.2.safe hclear.1)).startsNothing
    · exact fun _ hmem => absurd hmem not_mem_nil
  | tick rings nowSecs ids =>
    have hbefore := (s.keeps_beforeQuotes rings nowSecs ids).prices.cached hcached
    unfold checksOf
    dsimp only
    split <;> rename_i hcase
    · exact fun _ hmem => absurd hmem not_mem_nil
    · rw [hcase] at hbefore
      exact drainChecks_startNothing hbefore _
  | _ => exact fun _ hmem => absurd hmem not_mem_nil

theorem startsNothing_perform (op : RiskOp) (hclear : ∀ check ∈ s.checksOf op, check.Clear userId) :
    s.StartsNothing (s.perform op) userId := by
  rcases s.perform_cases op with ⟨event, rfl⟩ | ⟨rings, nowSecs, ids, rfl⟩ | hcalm | hstores
  · by_cases hfresh : s.Fresh event
    · exact checksOf_startNothing hcached (.fill event) ⟨s, s.bookFill event, s.processFill event⟩
        (by rw [checksOf, if_pos hfresh]; exact mem_singleton_self _)
        (hclear _ (by rw [checksOf, if_pos hfresh]; exact mem_singleton_self _))
    · have hsame : s.perform (.fill event) = s := processFill_of_not_fresh hfresh
      rw [hsame]
      exact .of_eq rfl rfl userId
  · have hstart := s.startsNothing_beforeQuotes rings nowSecs ids userId
    have hbefore := (s.keeps_beforeQuotes rings nowSecs ids).prices.cached hcached
    unfold checksOf at hclear
    unfold perform
    dsimp only at hclear ⊢
    unfold Shard.tick
    split <;> rename_i hcase
    · rw [hcase] at hstart
      exact hstart
    · rw [hcase] at hstart hbefore hclear
      exact (hstart.trans (startsNothing_drain hbefore _ hclear)).trans
        ((still_maybeSettleFunding _ nowSecs).startsNothing userId)
  · exact hcalm.toStill.startsNothing userId
  · obtain ⟨_, _, _, _, _, hframe⟩ := hstores.frame
    rw [hframe]
    exact ⟨fun _ hlive => hlive, suffix_rfl⟩

end Shard

/-! ## No liquidation on a missing price -/

open Shard

/-- **Unpriced positions.**  In every run, a check of a user whose unpriced positions show no loss
starts a liquidation or queues cancels only below the maintenance margin of the priced symbols, and
nothing but such a check starts one. -/
theorem priced_user_not_liquidated {s : Shard} (hcached : s.PricesCached) (ops : List RiskOp)
    (op : RiskOp) (userId : Nat) :
    let s' := ops.foldl Shard.perform s
    (∀ check ∈ s'.checksOf op, check.read.NoUnpricedLoss userId → check.read.SafePriced userId →
        check.before.StartsNothing check.after userId) ∧
      ((∀ check ∈ s'.checksOf op, check.read.NoUnpricedLoss userId ∧ check.read.SafePriced userId) →
        s'.StartsNothing (s'.perform op) userId) := by
  have hcached' := hcached.run ops
  exact ⟨fun check hmem hpriced hsafe =>
      checksOf_startNothing hcached' op check hmem ⟨hpriced, hsafe⟩,
    startsNothing_perform hcached' op⟩

/-- A user with a quote for their symbol keeps a long position through a fill. -/
theorem priced_user_not_liquidated_quoted :
    let s : Shard := {
      maxSymbols := 1, liquidation := ⟨[], [], 0, 0, 0, 1, 0⟩
      accounts := Function.update (fun _ => none) 7 (some ⟨7, 500, 0⟩)
      margin := ⟨fun _ => some ⟨1000, 500, 10, 1⟩⟩ }
    let quote : RiskOp := .bbo ⟨1, 0, 99, 1, 101, 1⟩
    s.StartsNothing (([quote].foldl perform s).perform (.fill ⟨2, 0, 7, 8, 100, 10, .buy, 0⟩))
      7 := by
  intro s quote
  have hcached : s.PricesCached := nofun
  have hclear : ∀ check ∈ ([quote].foldl perform s).checksOf (.fill ⟨2, 0, 7, 8, 100, 10, .buy, 0⟩),
      check.read.NoUnpricedLoss 7 ∧ check.read.SafePriced 7 := by
    decide +kernel
  have hfill := (priced_user_not_liquidated hcached [quote] (.fill ⟨2, 0, 7, 8, 100, 10, .buy, 0⟩)
    7).2 hclear
  exact ⟨hfill.entries, hfill.cancels⟩

/-- A fill replayed before any price arrived values the new position at zero: a user with nothing
but collateral and that position is liquidated, and their resting order cancelled. -/
theorem unpriced_fill_starts_liquidation :
    let s : Shard := {
      maxSymbols := 1, liquidation := ⟨[], [], 0, 0, 0, 1, 0⟩
      accounts := Function.update (fun _ => none) 7 (some ⟨7, 500, 0⟩)
      margin := ⟨fun _ => some ⟨1000, 500, 10, 1⟩⟩
      frozenOrders := Function.update (fun _ => none) (0, 1) (some ⟨7, 0, 10⟩)
      frozenByUser := Function.update (fun _ => []) 7 [((0, 1), 10)] }
    let fill : FillEvent := ⟨2, 0, 7, 8, 100, 10, .buy, 0⟩
    ((s.bookFill fill).pricedMargin 7).equity = 500 ∧ (s.bookFill fill).SafePriced 7 ∧
      ¬ s.liquidation.Live 7 0 ∧ s.pendingCancels = [] ∧
      (s.processFill fill).liquidation.Live 7 0 ∧
      (s.processFill fill).pendingCancels = [⟨7, 0, (0, 1)⟩] := by
  decide +kernel

end Rsx.Risk
