import Rsx.Risk.Continuity

/-!
# Solvency after an accepted order

The gate reserves initial margin on the notional at the limit price.  After the order has filled,
the user owes maintenance margin on the notional at the mark.  The reserve covers it when the order
opens or adds, its limit is not worse than the mark, and a unit of price is small against the mark.
-/

namespace Rsx.Risk

open Function Book List Option PortfolioMargin Position SymbolRiskParams

variable {paid : Int} {pos : Position} {side : Side} {rate : SymbolRiskParams → Int}

/-! ## Requirements -/

namespace Position

variable {p : Position} {mark : Int}

def value (p : Position) (mark : Int) : Int :=
  |p.longQty - p.shortQty| * mark

theorem notional_eq (hnet : FitsI64 (p.longQty - p.shortQty))
    (habs : FitsI64 |p.longQty - p.shortQty|) (hvalue : FitsI64 (p.value mark)) :
    p.notional mark = some (p.value mark) := by
  unfold notional
  rw [show p.netQty = p.longQty - p.shortQty from wrap64_of_fits hnet, Int.natCast_natAbs,
    wrap64_of_fits habs]
  exact tryI64_of_fits hvalue

def ValueFits (p : Position) (mark rate : Int) : Prop :=
  FitsI64 (p.longQty - p.shortQty) ∧ FitsI64 |p.longQty - p.shortQty| ∧ FitsI64 (p.value mark) ∧
    FitsI64 ((p.value mark * rate).tdiv 10000)
  deriving Decidable

end Position

namespace PortfolioMargin

variable {m : PortfolioMargin} {prices : Nat → Int} {positions : List Position}

def requiredOf (m : PortfolioMargin) (rate : SymbolRiskParams → Int) (prices : Nat → Int)
    (pos : Position) : Int :=
  match m.symbolParams pos.symbolId with
  | none => 0
  | some params => (pos.value (prices pos.symbolId) * rate params).tdiv 10000

def RequiredFits (m : PortfolioMargin) (rate : SymbolRiskParams → Int) (prices : Nat → Int)
    (positions : List Position) : Prop :=
  (∀ pos ∈ positions, ∀ params ∈ m.symbolParams pos.symbolId,
    pos.ValueFits (prices pos.symbolId) (rate params)) ∧
    SumFits 0 (positions.map (m.requiredOf rate prices))
  deriving Decidable

theorem requirement_eq {mark rate : Int} (h : pos.ValueFits mark rate) :
    requirement ((pos.notional mark).getD i64Max) rate = (pos.value mark * rate).tdiv 10000 := by
  obtain ⟨hnet, habs, hvalue, hrequired⟩ := h
  rw [notional_eq hnet habs hvalue, getD_some, requirement, tryI64_of_fits hrequired, getD_some]

theorem addPosition_none (sums : Sums)
    (h : m.symbolParams pos.symbolId = none) : m.addPosition prices sums pos = sums := by
  unfold addPosition
  rw [h]

theorem foldl_required (f : Sums → Int)
    (hstep : ∀ sums pos params, m.symbolParams pos.symbolId = some params →
      f (m.addPosition prices sums pos) = sat64 (f sums +
        requirement ((pos.notional (prices pos.symbolId)).getD i64Max) (rate params)))
    (hstart : f {} = 0) (h : m.RequiredFits rate prices positions) :
    f (positions.foldl (m.addPosition prices) {}) =
      (positions.map (m.requiredOf rate prices)).sum := by
  have hadd : ∀ sums, ∀ pos ∈ positions, FitsI64 (f sums) →
      FitsI64 (f sums + m.requiredOf rate prices pos) →
      f (m.addPosition prices sums pos) = f sums + m.requiredOf rate prices pos := by
    intro sums pos hmem _ hnext
    have hfits := h.1 pos hmem
    unfold requiredOf at hnext ⊢
    cases hparams : m.symbolParams pos.symbolId with
    | none => rw [addPosition_none sums hparams, add_zero]
    | some params =>
      rw [hparams] at hnext
      rw [hstep sums pos params hparams, requirement_eq (hfits params hparams), sat64_of_fits hnext]
  rw [foldl_addPosition f _ hadd (hstart.symm ▸ h.2), hstart, zero_add]

theorem foldl_mm (h : m.RequiredFits maintenanceMarginRate prices positions) :
    (positions.foldl (m.addPosition prices) {}).mm =
      (positions.map (m.requiredOf maintenanceMarginRate prices)).sum := by
  refine foldl_required Sums.mm (fun sums pos params hsome => ?_) rfl h
  unfold addPosition
  rw [hsome]

theorem foldl_im (h : m.RequiredFits initialMarginRate prices positions) :
    (positions.foldl (m.addPosition prices) {}).im =
      (positions.map (m.requiredOf initialMarginRate prices)).sum := by
  refine foldl_required Sums.im (fun sums pos params hsome => ?_) rfl h
  unfold addPosition
  rw [hsome]

end PortfolioMargin

namespace Shard

variable {s : Shard} {userId : Nat}

def MarginFits (s : Shard) (userId : Nat) : Prop :=
  s.EquityFits userId ∧ s.margin.RequiredFits initialMarginRate s.fallbackPrice
      (s.iterPositionsForUser userId) ∧
    s.margin.RequiredFits maintenanceMarginRate s.fallbackPrice
      (s.iterPositionsForUser userId)
  deriving Decidable

def requiredIn (s : Shard) (rate : SymbolRiskParams → Int) (userId symbolId : Nat) : Int :=
  s.margin.requiredOf rate s.fallbackPrice (s.position userId symbolId)

theorem requiredOf_default (m : PortfolioMargin) (rate : SymbolRiskParams → Int)
    (prices : Nat → Int) (userId symbolId : Nat) :
    m.requiredOf rate prices { userId := userId, symbolId := symbolId } = 0 := by
  unfold requiredOf
  split
  · rfl
  · simp [value]

theorem maintenanceMargin_eq (h : s.MarginFits userId) :
    (s.currentMargin userId).maintenanceMargin =
    ∑ symbolId ∈ Finset.range s.maxSymbols, s.requiredIn maintenanceMarginRate userId symbolId :=
  (foldl_mm h.2.2).trans
    (sum_iterPositionsForUser s userId (requiredOf_default _ _ _ userId))

theorem initialMargin_eq (h : s.MarginFits userId) : (s.currentMargin userId).initialMargin =
    ∑ symbolId ∈ Finset.range s.maxSymbols, s.requiredIn initialMarginRate userId symbolId :=
  (foldl_im h.2.1).trans
    (sum_iterPositionsForUser s userId (requiredOf_default _ _ _ userId))

end Shard

/-! ## The reserve -/

theorem reserve_covers {held qty mark limit im mm rounding : Int} (hqty : 0 < qty) (him0 : 0 ≤ im)
    (him : im ≤ 10000)
    (hunit : 10000 * (held + qty + if held = 0 then 0 else 1) ≤ mark * (im - mm) * (held + qty))
    (hrounding : rounding ≤ held + qty - 1) :
    mark * (held + qty) * mm / 10000 ≤
      mark * held * im / 10000 + limit * qty * im / 10000 + |mark - limit| * qty - rounding := by
  -- what the limit is better than the mark counts in full, so at least at the initial rate
  have hbetter : mark * qty * im ≤ 10000 * (|mark - limit| * qty) + limit * qty * im := by
    rcases le_total limit mark with hle | hle
    · have hdiff : im * ((mark - limit) * qty) ≤ 10000 * ((mark - limit) * qty) :=
        mul_le_mul_of_nonneg_right him (mul_nonneg (by omega) hqty.le)
      rw [abs_of_nonneg (by omega)]
      linarith
    · have hdiff : mark * (qty * im) ≤ limit * (qty * im) :=
        mul_le_mul_of_nonneg_right hle (mul_nonneg hqty.le him0)
      have habs := mul_nonneg (abs_nonneg (mark - limit)) hqty.le
      linarith
  have hsplit : mark * (im - mm) * (held + qty) =
      mark * held * im + mark * qty * im - mark * (held + qty) * mm := by ring
  -- the requirement of an open position is rounded down once more
  split_ifs at hunit with hflat
  · subst hflat
    rw [mul_zero, zero_mul] at hsplit ⊢
    omega
  · omega

/-! ## Acceptance -/

theorem le_of_le_sat64 {x y : Int} (hy : i64Min < y) (h : y ≤ sat64 x) : y ≤ x := by
  unfold sat64 at h
  omega

namespace Shard

variable {s : Shard} {order : OrderRequest}

/-- The state in which an order is checked: its user has an account, and the prices are fresh. -/
def checked (s : Shard) (userId : Nat) : Shard :=
  (s.ensureAccount userId).freshPrices

theorem checked_frame (s : Shard) (userId : Nat) : ∃ prices dirty, s.checked userId =
    { s with
      accounts := update s.accounts userId (some (s.account userId))
      fallbackMarkPrices := prices, markDirty := dirty } := by
  unfold checked
  rw [ensureAccount_eq]
  obtain ⟨prices, dirty, hfresh⟩ := freshPrices_eq
    { s with accounts := update s.accounts userId (some (s.account userId)) }
  exact ⟨prices, dirty, hfresh⟩

theorem marginState_checked (h : s.PricesCached) (userId : Nat) :
    (s.checked userId).marginState userId (s.account userId) = s.currentMargin userId := by
  have hprices : (s.checked userId).fallbackMarkPrices = s.fallbackPrice := by
    unfold checked
    rw [ensureAccount_eq]
    exact fallback_freshPrices h
  obtain ⟨prices, dirty, hframe⟩ := s.checked_frame userId
  unfold marginState currentMargin
  rw [hprices, hframe]
  rfl

theorem account_checked (s : Shard) (userId : Nat) :
    (s.checked userId).accounts userId = some (s.account userId) := by
  obtain ⟨prices, dirty, hframe⟩ := s.checked_frame userId
  rw [hframe]
  exact update_self ..

theorem processOrder_eq (hshard : s.userInShard order.userId) (hprice : 0 < order.price)
    (hqty : 0 < order.qty) : s.processOrder order =
      let checked := s.checked order.userId
      if needsLiquidation
            (checked.marginState order.userId (s.account order.userId)) ∧ ¬ order.isLiquidation then
        (checked, .rejected order.userId .userInLiquidation order.orderId)
      else if checked.maxSymbols ≤ order.symbolId then
        (checked, .rejected order.userId .insufficientMargin order.orderId)
      else
        match checked.margin.checkOrder (s.account order.userId)
            (checked.iterPositionsForUser order.userId) order checked.fallbackMarkPrices
            (checked.takerFeeBps order.symbolId) (checked.frozenForUser order.userId) with
        | .ok marginNeeded =>
          (checked.freeze order.userId order.symbolId order.orderId marginNeeded,
            .accepted order.userId marginNeeded order.orderId)
        | .error reason => (checked, .rejected order.userId reason order.orderId) := by
  unfold processOrder
  rw [if_neg (not_not.2 hshard), if_neg (by omega)]
  dsimp only
  rewrite [show (s.ensureAccount order.userId).freshPrices = s.checked order.userId from rfl,
    account_checked]
  rfl

theorem processOrder_valid {user : Nat} {reserved : Int} {orderId : OrderId}
    (h : (s.processOrder order).2 = .accepted user reserved orderId) :
    s.userInShard order.userId ∧ 0 < order.price ∧ 0 < order.qty := by
  unfold processOrder at h
  split at h
  · cases h
  · split at h
    · cases h
    · rename_i hshard hvalid
      exact ⟨not_not.1 hshard, by omega, by omega⟩

theorem checkOrder_ok {m : PortfolioMargin} {account : Account} {positions : List Position}
    {prices : Nat → Int} {fee frozen reserved : Int} (hreduce : order.reduceOnly = false)
    (hliquidation : order.isLiquidation = false)
    (h : m.checkOrder account positions order prices fee frozen = .ok reserved) :
    ∃ params, m.symbolParams order.symbolId = some params ∧
      reserved = calculateMarginNeeded params order.price order.qty fee ∧
      reserved ≤ (m.calculate account positions prices frozen).availableMargin := by
  unfold checkOrder at h
  rw [hliquidation, if_neg Bool.false_ne_true] at h
  cases hparams : m.symbolParams order.symbolId with
  | none =>
    rw [hparams] at h
    cases h
  | some params =>
    rw [hparams] at h
    dsimp only at h
    rw [hreduce, if_neg Bool.false_ne_true] at h
    split_ifs at h with _ _ havailable
    obtain rfl := Except.ok.inj h
    exact ⟨params, rfl, rfl, not_lt.1 havailable⟩

theorem processOrder_accepted {user : Nat} {reserved : Int} {orderId : OrderId}
    (hcached : s.PricesCached) (hreduce : order.reduceOnly = false)
    (hliquidation : order.isLiquidation = false)
    (h : (s.processOrder order).2 = .accepted user reserved orderId) :
    ∃ params, s.margin.symbolParams order.symbolId = some params ∧ order.symbolId < s.maxSymbols ∧
      calculateMarginNeeded params order.price order.qty (s.takerFeeBps order.symbolId) ≤
        (s.currentMargin order.userId).availableMargin ∧
      (s.processOrder order).1 =
        (s.checked order.userId).freeze order.userId order.symbolId order.orderId
          (calculateMarginNeeded params order.price order.qty (s.takerFeeBps order.symbolId)) := by
  obtain ⟨hshard, hprice, hqty⟩ := processOrder_valid h
  have hmargin := marginState_checked hcached order.userId
  obtain ⟨prices, dirty, hframe⟩ := s.checked_frame order.userId
  have hsymbols : (s.checked order.userId).maxSymbols = s.maxSymbols := by rw [hframe]
  have hparams : (s.checked order.userId).margin = s.margin := by rw [hframe]
  have hfees : (s.checked order.userId).takerFeeBps = s.takerFeeBps := by rw [hframe]
  rw [processOrder_eq hshard hprice hqty] at h ⊢
  dsimp only at h ⊢
  split_ifs at h ⊢ with _ hsymbol
  rw [hsymbols, not_le] at hsymbol
  cases hcheck : (s.checked order.userId).margin.checkOrder (s.account order.userId)
      ((s.checked order.userId).iterPositionsForUser order.userId) order
      (s.checked order.userId).fallbackMarkPrices
      ((s.checked order.userId).takerFeeBps order.symbolId)
      ((s.checked order.userId).frozenForUser order.userId) with
  | error =>
    rw [hcheck] at h
    cases h
  | ok =>
    obtain ⟨params, hsome, hneeded, havailable⟩ := checkOrder_ok hreduce hliquidation hcheck
    rw [hfees] at hneeded
    refine ⟨params, hparams ▸ hsome, hsymbol, ?_, ?_⟩
    · rw [← hneeded, ← hmargin]
      exact havailable
    · rw [hneeded]

end Shard

/-! ## Filling an order -/

def FeeExact (qty price feeBps : Int) : Prop :=
  wrap128 (qty * price * feeBps) = qty * price * feeBps ∧ FitsI64 (qty * price * feeBps / 10000)
  deriving Decidable

theorem FeeExact.eq {qty price feeBps : Int} (h : FeeExact qty price feeBps) :
    calculateFee qty price feeBps = qty * price * feeBps / 10000 := by
  rw [calculateFee, h.1, sat64_of_fits h.2]

namespace Shard

variable {s s₀ : Shard} {order : OrderRequest} {fill : FillEvent}

/-- A fill of an order: its user is on the side of the order and on no other, at a price within the
limit, and nothing overflows. -/
def FillsOrder (s : Shard) (order : OrderRequest) (fill : FillEvent) : Prop :=
  fill.symbolId = order.symbolId ∧ 0 < fill.qty ∧ 0 < fill.price ∧
    order.side.within fill.price order.price ∧
    (fill.takerUserId = order.userId ∧ fill.makerUserId ≠ order.userId ∧
        fill.takerSide = order.side ∨
      fill.makerUserId = order.userId ∧ fill.takerUserId ≠ order.userId ∧
        fill.takerSide.opposite = order.side) ∧
    s.FillFits order.userId order.symbolId fill ∧ s.FeesFit order.userId fill ∧
    FeeExact fill.qty fill.price (s.takerFeeBps fill.symbolId) ∧
    FeeExact fill.qty fill.price (s.makerFeeBps fill.symbolId)
  deriving Decidable

def OnlyTrades (s : Shard) (order : OrderRequest) (fill : FillEvent) : Prop :=
  s.Fresh fill → fill.takerUserId = order.userId ∨ fill.makerUserId = order.userId →
    s.FillsOrder order fill
  deriving Decidable

theorem FillsOrder.legs (h : s.FillsOrder order fill) :
    legsOf order.userId order.symbolId fill = [⟨order.side, fill.price, fill.qty⟩] := by
  obtain ⟨hsymbol, -, -, -, hside, -⟩ := h
  rw [legsOf, if_pos hsymbol]
  rcases hside with ⟨htaker, hmaker, hside⟩ | ⟨hmaker, htaker, hside⟩
  · rw [if_pos htaker, if_neg hmaker, hside, append_nil]
  · rw [if_neg htaker, if_pos hmaker, hside, nil_append]

theorem FillsOrder.fees (h : s.FillsOrder order fill)
    (hmaker : s.makerFeeBps order.symbolId ≤ s.takerFeeBps order.symbolId) :
    (s.feesOf order.userId fill).sum ≤
      fill.qty * fill.price * s.takerFeeBps order.symbolId / 10000 := by
  obtain ⟨hsymbol, hqty, hprice, -, hside, -, -, htakerFee, hmakerFee⟩ := h
  rw [hsymbol] at htakerFee hmakerFee
  have hle : fill.qty * fill.price * s.makerFeeBps order.symbolId ≤
      fill.qty * fill.price * s.takerFeeBps order.symbolId :=
    mul_le_mul_of_nonneg_left hmaker (mul_nonneg hqty.le hprice.le)
  unfold feesOf
  rw [hsymbol, htakerFee.eq, hmakerFee.eq]
  rcases hside with ⟨htaker, hmaker, -⟩ | ⟨hmaker, htaker, -⟩
  · rw [if_pos htaker, if_neg hmaker, append_nil, sum_singleton]
  · rw [if_neg htaker, if_pos hmaker, nil_append, sum_singleton]
    omega

/-- Where an order stands: how much of it is filled, for how much, and with what fees. -/
structure Progress (s₀ s : Shard) (order : OrderRequest) (qty paid fees : Int) : Prop where
  owned : s.userInShard order.userId
  config : s.margin = s₀.margin ∧ s.maxSymbols = s₀.maxSymbols ∧
    s.fallbackPrice = s₀.fallbackPrice ∧ s.takerFeeBps = s₀.takerFeeBps ∧
    s.makerFeeBps = s₀.makerFeeBps
  others : ∀ symbolId, symbolId ≠ order.symbolId →
    s.position order.userId symbolId = s₀.position order.userId symbolId
  sound : (s.position order.userId order.symbolId).Sound
  fits : (s.position order.userId order.symbolId).Fits
  symbol : (s.position order.userId order.symbolId).symbolId = order.symbolId
  own : (s.position order.userId order.symbolId).qtyOn order.side =
    (s₀.position order.userId order.symbolId).qtyOn order.side + qty
  cost : (s.position order.userId order.symbolId).costOn order.side =
    (s₀.position order.userId order.symbolId).costOn order.side + paid
  flat : (s.position order.userId order.symbolId).qtyOn order.side.opposite = 0
  collateral : (s.account order.userId).collateral = (s₀.account order.userId).collateral - fees
  within : sign order.side * paid ≤ sign order.side * (order.price * qty)
  feesBound : fees ≤ paid * s₀.takerFeeBps order.symbolId / 10000

theorem sign_within {price limit qty : Int} (hqty : 0 ≤ qty)
    (h : side.within price limit) :
    sign side * (price * qty) ≤ sign side * (limit * qty) := by
  cases side with
  | buy =>
    have hle : price ≤ limit := of_decide_eq_true h
    rw [sign, one_mul, one_mul]
    exact mul_le_mul_of_nonneg_right hle hqty
  | sell =>
    have hle : limit ≤ price := of_decide_eq_true h
    rw [sign, neg_one_mul, neg_one_mul, neg_le_neg_iff]
    exact mul_le_mul_of_nonneg_right hle hqty

theorem Progress.other {qty fees : Int} (h : Progress s₀ s order qty paid fees)
    (hposition : ∀ symbolId, (s.processFill fill).position order.userId symbolId =
      s.position order.userId symbolId)
    (haccount : (s.processFill fill).account order.userId = s.account order.userId) :
    Progress s₀ (s.processFill fill) order qty paid fees := by
  obtain ⟨_, _, _, _, _, _, _, _, _, hframe⟩ := s.processFill_frame fill
  obtain ⟨howned, hconfig, hothers, hsound, hfits, hsymbol, hown, hcost, hflat, hcollateral,
    hwithin, hfees⟩ := h
  refine ⟨?_, ?_, ?_, ?_, ?_, ?_, ?_, ?_, ?_, ?_, hwithin, hfees⟩
  · rw [userInShard_processFill]
    exact howned
  · rw [hframe]
    exact hconfig
  · intro symbolId hne
    rw [hposition]
    exact hothers symbolId hne
  all_goals first | rw [hposition] | rw [haccount]
  all_goals assumption

theorem Progress.filled {qty fees : Int} (h : Progress s₀ s order qty paid fees)
    (hfresh : s.Fresh fill) (hfill : s.FillsOrder order fill)
    (hmaker : s₀.makerFeeBps order.symbolId ≤ s₀.takerFeeBps order.symbolId) :
    Progress s₀ (s.processFill fill) order (qty + fill.qty) (paid + fill.price * fill.qty)
      (fees + (s.feesOf order.userId fill).sum) := by
  have hlegs := hfill.legs
  obtain ⟨_, _, _, _, _, _, _, _, _, hframe⟩ := s.processFill_frame fill
  obtain ⟨howned, hconfig, hothers, hsound, hfits, hsymbol, hown, hcost, hflat, hcollateral,
    hwithin, hfees⟩ := h
  have hfee := hfill.fees (by rw [hconfig.2.2.2.1, hconfig.2.2.2.2]; exact hmaker)
  obtain ⟨hfillSymbol, hqty, hprice, hlimit, hside, hfillFits, hfeesFit, -⟩ := hfill
  have hfit := hfillFits hfresh
  have hafter : (s.processFill fill).position order.userId order.symbolId =
      (s.position order.userId order.symbolId).applyLegs fill.seq
        [⟨order.side, fill.price, fill.qty⟩] := by
    rw [position_processFill howned hfresh, hlegs]
  rw [hlegs] at hfit
  obtain ⟨hsound', hfits', hsymbol'⟩ := hsound.applyLegs hfits hfit (by simp [hqty, hprice.le])
  have hbooked : ∀ side, ((s.processFill fill).position order.userId order.symbolId).qtyOn side =
        ((s.position order.userId order.symbolId).booked order.side fill.price fill.qty).qtyOn
          side ∧
      ((s.processFill fill).position order.userId order.symbolId).costOn side =
        ((s.position order.userId order.symbolId).booked order.side fill.price fill.qty).costOn
          side := by
    intro side
    rw [hafter]
    unfold applyLegs
    rw [foldl_cons, applyFill_eq hfit.1]
    cases side <;> exact ⟨rfl, rfl⟩
  have hnot : ¬ 0 < (s.position order.userId order.symbolId).qtyOn order.side.opposite := by omega
  obtain ⟨hownQty, hownCost⟩ := (s.position order.userId order.symbolId).booked_own order.side
    fill.price fill.qty
  obtain ⟨hoppQty, -⟩ := (s.position order.userId order.symbolId).booked_opposite order.side
    fill.price fill.qty
  rw [closeQty_of_not_pos hnot, sub_zero] at hownQty hownCost hoppQty
  refine ⟨?_, ?_, ?_, hafter ▸ hsound', hafter ▸ hfits', ?_, ?_, ?_, ?_, ?_, ?_, ?_⟩
  · rw [userInShard_processFill]
    exact howned
  · rw [hframe]
    exact hconfig
  · intro symbolId hne
    rw [position_processFill howned hfresh, legsOf, if_neg (by rw [hfillSymbol]; exact hne.symm)]
    exact hothers symbolId hne
  · rw [hafter, hsymbol', hsymbol]
  · rw [(hbooked _).1, hownQty, hown, add_assoc]
  · rw [(hbooked _).2, hownCost, hcost, add_assoc]
  · rw [(hbooked _).1, hoppQty, hflat]
  · rw [collateral_processFill howned hfresh hfeesFit, hcollateral, sub_sub]
  · rw [mul_add, mul_add, mul_add]
    exact add_le_add hwithin (sign_within hqty.le hlimit)
  · rw [hconfig.2.2.2.1, mul_comm fill.qty] at hfee
    rw [add_mul]
    omega

def filledQty (s : Shard) (userId symbolId : Nat) (fills : List FillEvent) : Int :=
  (((s.applied fills).flatMap (legsOf userId symbolId)).map Leg.qty).sum

theorem Progress.run {qty fees : Int} {fills : List FillEvent}
    (h : Progress s₀ s order qty paid fees)
    (hmaker : s₀.makerFeeBps order.symbolId ≤ s₀.takerFeeBps order.symbolId)
    (honly : Along (fun s fill => some (s.processFill fill))
      (fun s fill => s.OnlyTrades order fill) s fills) :
    ∃ paid' fees', Progress s₀ (fills.foldl Shard.processFill s) order
      (qty + s.filledQty order.userId order.symbolId fills) paid' fees' := by
  induction fills generalizing s qty paid fees with
  | nil =>
    refine ⟨paid, fees, ?_⟩
    rw [show qty + s.filledQty order.userId order.symbolId [] = qty from add_zero qty]
    exact h
  | cons fill fills ih =>
    have hrest : (s.filledQty order.userId order.symbolId (fill :: fills)) = (if s.Fresh fill then
          ((legsOf order.userId order.symbolId fill).map Leg.qty).sum else 0) +
          (s.processFill fill).filledQty order.userId order.symbolId fills := by
      unfold filledQty
      rw [applied]
      split_ifs
      · rw [flatMap_cons, map_append, sum_append]
      · rw [zero_add]
    rw [hrest, ← add_assoc]
    by_cases hfresh : s.Fresh fill
    · rw [if_pos hfresh]
      by_cases hparty : fill.takerUserId = order.userId ∨ fill.makerUserId = order.userId
      · have hfill := honly.1 hfresh hparty
        have hnext := h.filled hfresh hfill hmaker
        rw [hfill.legs, map_singleton, sum_singleton]
        exact ih hnext (honly.2 _ rfl)
      · rw [not_or] at hparty
        have hlegs : ∀ symbolId, legsOf order.userId symbolId fill = [] := by
          intro symbolId
          rw [legsOf, if_neg hparty.1, if_neg hparty.2, append_nil, ite_self]
        have hnext : Progress s₀ (s.processFill fill) order qty paid fees := by
          refine h.other (fun symbolId => ?_) ?_
          · rw [position_processFill h.owned hfresh, hlegs]
            rfl
          · rw [account_processFill h.owned hfresh, feesOf, if_neg hparty.1, if_neg hparty.2]
            rfl
        rw [hlegs, map_nil, sum_nil, add_zero]
        exact ih hnext (honly.2 _ rfl)
    · have hsame := processFill_of_not_fresh hfresh
      rw [if_neg hfresh, add_zero]
      exact ih (h.other (fun _ => by rw [hsame]) (by rw [hsame])) (honly.2 _ rfl)

theorem Progress.accepted {reserved : Int} (hshard : s.userInShard order.userId) (hsound : s.Sound)
    (hflat : (s.position order.userId order.symbolId).qtyOn order.side.opposite = 0) :
    Progress s ((s.checked order.userId).freeze order.userId order.symbolId order.orderId reserved)
      order 0 0 0 := by
  obtain ⟨prices, dirty, hframe⟩ := s.checked_frame order.userId
  rw [hframe]
  refine ⟨hshard, ⟨rfl, rfl, rfl, rfl, rfl⟩, fun _ _ => rfl, hsound.sound _ _, hsound.fits _ _,
    hsound.symbol _ _, (add_zero _).symm, (add_zero _).symm, hflat, ?_, ?_, ?_⟩
  · rw [sub_zero]
    exact congrArg Account.collateral ((getD_update ..).trans (if_pos rfl))
  · rw [mul_zero order.price]
  · rw [zero_mul, Int.zero_ediv]

end Shard

/-! ## Solvency -/

theorem paid_within {limit mark qty fees feeBps : Int}
    (hmark : side.within limit mark) (hfeeMin : 0 ≤ feeBps) (hfeeMax : feeBps ≤ 10000)
    (hwithin : sign side * paid ≤ sign side * (limit * qty))
    (hfees : fees ≤ paid * feeBps / 10000) :
    |mark - limit| * qty - limit * qty * feeBps / 10000 ≤
      sign side * (mark * qty - paid) - fees := by
  cases side with
  | buy =>
    have hle : limit ≤ mark := of_decide_eq_true hmark
    dsimp only [sign] at *
    have hpaid : paid * feeBps ≤ limit * qty * feeBps :=
      mul_le_mul_of_nonneg_right (by omega) hfeeMin
    rw [abs_of_nonneg (by omega), sub_mul]
    omega
  | sell =>
    have hle : mark ≤ limit := of_decide_eq_true hmark
    dsimp only [sign] at *
    have hpaid : (paid - limit * qty) * feeBps ≤ (paid - limit * qty) * 10000 :=
      mul_le_mul_of_nonneg_left hfeeMax (by omega)
    rw [sub_mul] at hpaid
    rw [abs_of_nonpos (by omega), neg_mul, sub_mul]
    omega

namespace Shard

variable {s : Shard} {order : OrderRequest} {params : SymbolRiskParams}

/-- What the gate leaves out: it is safe for orders that open or add, with a limit not worse than
the mark, where the initial margin exceeds the maintenance margin by a unit of price for each unit
held and one more for a position already open, and no fee exceeds that of the taker. -/
def GateCovers (s : Shard) (order : OrderRequest) (params : SymbolRiskParams) : Prop :=
  let held := (s.position order.userId order.symbolId).qtyOn order.side
  (s.position order.userId order.symbolId).qtyOn order.side.opposite = 0 ∧
    order.side.within order.price (s.fallbackPrice order.symbolId) ∧
    10000 * (held + order.qty + if held = 0 then 0 else 1) ≤ s.fallbackPrice order.symbolId *
      (params.initialMarginRate - params.maintenanceMarginRate) * (held + order.qty) ∧
    s.makerFeeBps order.symbolId ≤ s.takerFeeBps order.symbolId ∧
    0 ≤ s.takerFeeBps order.symbolId ∧ s.takerFeeBps order.symbolId ≤ 10000 ∧
    0 ≤ s.frozenForUser order.userId
  deriving Decidable

def ReserveFits (s : Shard) (order : OrderRequest) (params : SymbolRiskParams) : Prop :=
  FitsI64 (order.price * order.qty) ∧
    FitsI64 (order.price * order.qty * params.initialMarginRate / 10000) ∧
    FeeExact order.qty order.price (s.takerFeeBps order.symbolId) ∧
    FitsI64 (order.price * order.qty * params.initialMarginRate / 10000 +
      order.qty * order.price * s.takerFeeBps order.symbolId / 10000)
  deriving Decidable

theorem calculateMarginNeeded_eq (h : s.ReserveFits order params)
    (hnonneg : 0 ≤ order.price * order.qty * params.initialMarginRate) :
    calculateMarginNeeded params order.price order.qty (s.takerFeeBps order.symbolId) =
      order.price * order.qty * params.initialMarginRate / 10000 +
        order.price * order.qty * s.takerFeeBps order.symbolId / 10000 := by
  obtain ⟨hnotional, hrequired, hfee, hsum⟩ := h
  unfold calculateMarginNeeded requirement
  dsimp only
  rw [tryI64_of_fits hnotional, getD_some, Int.tdiv_eq_ediv_of_nonneg hnonneg,
    tryI64_of_fits hrequired, getD_some, hfee.eq, sat64_of_fits hsum,
    mul_comm order.qty order.price]

theorem le_of_le_availableMargin {userId : Nat} {needed : Int} (hneeded : 0 ≤ needed)
    (hfrozen : 0 ≤ s.frozenForUser userId)
    (h : needed ≤ (s.currentMargin userId).availableMargin) :
    needed ≤ s.equity userId - (s.currentMargin userId).initialMargin := by
  have hmin : i64Min < 0 := by decide
  have houter : needed ≤ sat64 (s.equity userId - (s.currentMargin userId).initialMargin) -
      s.frozenForUser userId := le_of_le_sat64 (by omega) h
  have hinner : needed + s.frozenForUser userId ≤
      s.equity userId - (s.currentMargin userId).initialMargin :=
    le_of_le_sat64 (by omega) (by omega)
  omega

theorem requiredIn_eq {userId symbolId : Nat}
    (hparams : s.margin.symbolParams symbolId = some params)
    (hsymbol : (s.position userId symbolId).symbolId = symbolId)
    (hsound : (s.position userId symbolId).Sound)
    (hflat : (s.position userId symbolId).qtyOn side.opposite = 0)
    (hprice : 0 ≤ s.fallbackPrice symbolId) (hrate : 0 ≤ rate params) :
    s.requiredIn rate userId symbolId = s.fallbackPrice symbolId *
      (s.position userId symbolId).qtyOn side * rate params / 10000 := by
  have hnonneg := mul_nonneg (mul_nonneg (hsound.nonneg side) hprice) hrate
  unfold requiredIn requiredOf
  rw [hsymbol, hparams]
  dsimp only
  rw [value, hsound.abs_net hflat, Int.tdiv_eq_ediv_of_nonneg hnonneg,
    mul_comm (s.fallbackPrice symbolId)]

theorem maintenance_le_initial (hsound : s.Sound) {userId symbolId : Nat}
    (hpriced : ¬ (s.position userId symbolId).isEmpty → 0 < s.fallbackPrice symbolId)
    (hrates : ∀ params, s.margin.symbolParams symbolId = some params →
      0 ≤ params.maintenanceMarginRate ∧ params.maintenanceMarginRate < params.initialMarginRate) :
    s.requiredIn maintenanceMarginRate userId symbolId ≤
      s.requiredIn initialMarginRate userId symbolId := by
  unfold requiredIn requiredOf
  rw [hsound.symbol]
  cases hparams : s.margin.symbolParams symbolId with
  | none => exact le_rfl
  | some params =>
    obtain ⟨hmm, hlt⟩ := hrates params hparams
    have hvalue : 0 ≤ (s.position userId symbolId).value (s.fallbackPrice symbolId) := by
      by_cases hempty : (s.position userId symbolId).isEmpty
      · obtain ⟨hlong, hshort⟩ := of_decide_eq_true hempty
        rw [value, hlong, hshort, sub_self, abs_zero, zero_mul]
      · exact mul_nonneg (abs_nonneg _) (hpriced hempty).le
    dsimp only
    rw [Int.tdiv_eq_ediv_of_nonneg (mul_nonneg hvalue hmm),
      Int.tdiv_eq_ediv_of_nonneg (mul_nonneg hvalue (by omega))]
    exact Int.ediv_le_ediv (by decide) (mul_le_mul_of_nonneg_left hlt.le hvalue)

theorem Progress.maintenance_le {s' : Shard} {qty fees : Int}
    (h : Progress s s' order qty paid fees) (hsound : s.Sound)
    (hsymbol : order.symbolId < s.maxSymbols)
    (hpriced : ∀ symbolId, ¬ (s.position order.userId symbolId).isEmpty →
      0 < s.fallbackPrice symbolId)
    (hrates : ∀ symbolId params, s.margin.symbolParams symbolId = some params →
      0 ≤ params.maintenanceMarginRate ∧ params.maintenanceMarginRate < params.initialMarginRate)
    (hbefore : s.MarginFits order.userId) (hafter : s'.MarginFits order.userId) :
    (s'.currentMargin order.userId).maintenanceMargin ≤
      (s.currentMargin order.userId).initialMargin -
        s.requiredIn initialMarginRate order.userId order.symbolId +
        s'.requiredIn maintenanceMarginRate order.userId order.symbolId := by
  obtain ⟨hmargin, hsymbols, hprices, -⟩ := h.config
  have hmem : order.symbolId ∈ Finset.range s.maxSymbols := Finset.mem_range.2 hsymbol
  have hothers : ∑ symbolId ∈ (Finset.range s.maxSymbols).erase order.symbolId,
        s'.requiredIn maintenanceMarginRate order.userId symbolId ≤
      ∑ symbolId ∈ (Finset.range s.maxSymbols).erase order.symbolId,
        s.requiredIn initialMarginRate order.userId symbolId := by
    refine Finset.sum_le_sum fun symbolId hother => ?_
    have hsame : s'.requiredIn maintenanceMarginRate order.userId symbolId =
        s.requiredIn maintenanceMarginRate order.userId symbolId := by
      rw [requiredIn, h.others symbolId (Finset.ne_of_mem_erase hother), hmargin, hprices]
      rfl
    rw [hsame]
    exact maintenance_le_initial hsound (hpriced symbolId) (hrates symbolId)
  rw [maintenanceMargin_eq hafter, initialMargin_eq hbefore, hsymbols,
    ← Finset.add_sum_erase _ _ hmem, ← Finset.add_sum_erase _ _ hmem]
  omega

theorem Progress.equity_eq {s' : Shard} {qty fees : Int}
    (h : Progress s s' order qty paid fees) (hsound : s.Sound)
    (hsymbol : order.symbolId < s.maxSymbols)
    (hparams : s.margin.symbolParams order.symbolId = some params)
    (hbefore : s.EquityFits order.userId) (hafter : s'.EquityFits order.userId) :
    s'.equity order.userId = s.equity order.userId - fees +
      ((s'.position order.userId order.symbolId).gain (s.fallbackPrice order.symbolId) -
        (s.position order.userId order.symbolId).gain (s.fallbackPrice order.symbolId)) := by
  obtain ⟨hmargin, hsymbols, hprices, -⟩ := h.config
  have hother : ∀ symbolId ∈ Finset.range s.maxSymbols, symbolId ≠ order.symbolId →
      s'.gainIn order.userId symbolId = s.gainIn order.userId symbolId := by
    intro symbolId _ hne
    rw [gainIn, h.others symbolId hne, hmargin, hprices]
    rfl
  have hsum := sum_sub_of_change (Finset.mem_range.2 hsymbol) hother
  have hgain : s.gainIn order.userId order.symbolId =
      (s.position order.userId order.symbolId).gain (s.fallbackPrice order.symbolId) := by
    rw [gainIn_eq hsound, hparams, isSome_some, if_pos rfl]
  have hgain' : s'.gainIn order.userId order.symbolId =
      (s'.position order.userId order.symbolId).gain (s.fallbackPrice order.symbolId) := by
    rw [gainIn, gainOf, h.symbol, hmargin, hparams, isSome_some, if_pos rfl, hprices]
  rw [Shard.equity_eq hbefore, Shard.equity_eq hafter, h.collateral, hsymbols, ← hgain, ← hgain',
    ← hsum]
  ring

end Shard

/-- **Solvency after an order.**  An order that the gate accepts, other than a reduce-only or a
liquidation order, and that the gate covers, leaves its user at or above maintenance margin after
every run in which it fills completely within its limit and the user trades on nothing else. -/
theorem order_leaves_solvent (s : Shard) (order : OrderRequest) (fills : List FillEvent)
    (params : SymbolRiskParams) (reserved : Int) (hsound : s.Sound) (hcached : s.PricesCached)
    (hreduce : order.reduceOnly = false) (hliquidation : order.isLiquidation = false)
    (haccepted : (s.processOrder order).2 = .accepted order.userId reserved order.orderId)
    (hparams : s.margin.symbolParams order.symbolId = some params)
    (hpriced : ∀ symbolId, ¬ (s.position order.userId symbolId).isEmpty →
      0 < s.fallbackPrice symbolId)
    (hrates : ∀ symbolId params, s.margin.symbolParams symbolId = some params →
      0 ≤ params.maintenanceMarginRate ∧ params.maintenanceMarginRate < params.initialMarginRate ∧
        params.initialMarginRate ≤ 10000)
    (honly : Along (fun s fill => some (s.processFill fill))
      (fun s fill => s.OnlyTrades order fill) (s.processOrder order).1 fills)
    (hfilled : (s.processOrder order).1.filledQty order.userId order.symbolId fills = order.qty)
    (hreserve : s.ReserveFits order params) (hbefore : s.MarginFits order.userId)
    (hafter : (fills.foldl Shard.processFill (s.processOrder order).1).MarginFits order.userId)
    (hcovers : s.GateCovers order params) :
    let s' := fills.foldl Shard.processFill (s.processOrder order).1
    (s'.currentMargin order.userId).maintenanceMargin ≤ (s'.currentMargin order.userId).equity := by
  intro s'
  obtain ⟨hflat, hlimit, hunit, hmaker, hfeeMin, hfeeMax, hfrozen⟩ := hcovers
  obtain ⟨hshard, hprice, hqty⟩ := Shard.processOrder_valid haccepted
  obtain ⟨params', hparams', hsymbol, havailable, hstate⟩ :=
    Shard.processOrder_accepted hcached hreduce hliquidation haccepted
  obtain rfl := Option.some.inj (hparams.symm.trans hparams')
  obtain ⟨hmm, hlt, him⟩ := hrates order.symbolId params hparams
  have hheld := (hsound.sound order.userId order.symbolId).nonneg order.side
  -- the mark is positive, since its product with the gap of the rates is
  have hmark : 0 ≤ s.fallbackPrice order.symbolId := by
    by_contra hneg
    have hgap := mul_nonpos_of_nonpos_of_nonneg (not_le.1 hneg).le
      (show 0 ≤ params.initialMarginRate - params.maintenanceMarginRate by omega)
    have := mul_nonpos_of_nonpos_of_nonneg hgap
      (show 0 ≤ (s.position order.userId order.symbolId).qtyOn order.side + order.qty by omega)
    split_ifs at hunit <;> omega
  have hstart : s.Progress (s.processOrder order).1 order 0 0 0 :=
    hstate ▸ Shard.Progress.accepted hshard hsound hflat
  obtain ⟨paid, fees, hprogress⟩ := hstart.run hmaker honly
  rw [hfilled, zero_add] at hprogress
  have hnotional : 0 ≤ order.price * order.qty := mul_nonneg hprice.le hqty.le
  have hneeded := Shard.calculateMarginNeeded_eq hreserve (mul_nonneg hnotional (by omega))
  have hnonneg : 0 ≤ order.price * order.qty * params.initialMarginRate / 10000 +
      order.price * order.qty * s.takerFeeBps order.symbolId / 10000 :=
    add_nonneg (Int.ediv_nonneg (mul_nonneg hnotional (by omega)) (by decide))
      (Int.ediv_nonneg (mul_nonneg hnotional hfeeMin) (by decide))
  rw [hneeded] at havailable
  have hequity := Shard.le_of_le_availableMargin hnonneg hfrozen havailable
  have hmaintenance := hprogress.maintenance_le hsound hsymbol hpriced
    (fun symbolId params h => ⟨(hrates symbolId params h).1, (hrates symbolId params h).2.1⟩)
    hbefore hafter
  have hequity' := hprogress.equity_eq hsound hsymbol hparams hbefore.1 hafter.1
  obtain ⟨hgain, -⟩ := abs_le.1 ((hsound.sound order.userId order.symbolId).gain_added
    (hsound.fits order.userId order.symbolId) hprogress.sound hprogress.fits hqty hflat
    hprogress.own hprogress.cost (s.fallbackPrice order.symbolId))
  have hpaid := paid_within hlimit hfeeMin hfeeMax hprogress.within hprogress.feesBound
  have him0 : 0 ≤ SymbolRiskParams.initialMarginRate params := by omega
  have hrequired := Shard.requiredIn_eq hparams (hsound.symbol _ _)
    (hsound.sound order.userId order.symbolId) hflat hmark him0
  have hrequired' := Shard.requiredIn_eq (hprogress.config.1 ▸ hparams) hprogress.symbol
    hprogress.sound hprogress.flat (hprogress.config.2.2.1 ▸ hmark)
    (show 0 ≤ SymbolRiskParams.maintenanceMarginRate params from hmm)
  rw [hprogress.own, hprogress.config.2.2.1] at hrequired'
  have hcovered := @reserve_covers _ order.qty _ order.price _ _ _ hqty him0 him hunit le_rfl
  change ((fills.foldl Shard.processFill (s.processOrder order).1).currentMargin
    order.userId).maintenanceMargin ≤
      (fills.foldl Shard.processFill (s.processOrder order).1).equity order.userId
  omega

/-- A buy order for 2 below the mark, filled once as maker and once as taker. -/
theorem order_leaves_solvent_below_mark :
    let s : Shard := {
      maxSymbols := 1, liquidation := ⟨[], [], 0, 0, 0, 1, 0⟩
      accounts := Function.update (fun _ => none) 7 (some ⟨7, 1000000, 0⟩)
      margin := ⟨fun _ => some ⟨1000, 500, 10, 1⟩⟩
      markPrices := fun _ => 100000, takerFeeBps := fun _ => 10 }
    let order : OrderRequest :=
      { userId := 7, symbolId := 0, price := 99999, qty := 2, orderId := (0, 1), side := .buy }
    let fills : List FillEvent :=
      [⟨1, 0, 8, 7, 99000, 1, .sell, 0⟩, ⟨2, 0, 7, 8, 99999, 1, .buy, 0⟩]
    let s' := fills.foldl Shard.processFill (s.processOrder order).1
    (s.processOrder order).2 = .accepted 7 20198 (0, 1) ∧ s.GateCovers order ⟨1000, 500, 10, 1⟩ ∧
      (s'.currentMargin 7).maintenanceMargin ≤ (s'.currentMargin 7).equity := by
  intro s order fills s'
  have hall : (s.processOrder order).2 = .accepted 7 20198 (0, 1) ∧
      s.GateCovers order ⟨1000, 500, 10, 1⟩ ∧
      Along (fun s fill => some (s.processFill fill)) (fun s fill => s.OnlyTrades order fill)
        (s.processOrder order).1 fills ∧
      (s.processOrder order).1.filledQty 7 0 fills = 2 ∧
      s.ReserveFits order ⟨1000, 500, 10, 1⟩ ∧ s.MarginFits 7 ∧ s'.MarginFits 7 := by decide +kernel
  obtain ⟨haccepted, hcovers, honly, hfilled, hreserve, hbefore, hafter⟩ := hall
  have hcached : s.PricesCached := fun hclean => by cases hclean
  have hrates : ∀ symbolId params, s.margin.symbolParams symbolId = some params →
      0 ≤ params.maintenanceMarginRate ∧ params.maintenanceMarginRate < params.initialMarginRate ∧
        params.initialMarginRate ≤ 10000 := by
    intro symbolId params hparams
    cases hparams
    decide
  have hpriced : ∀ symbolId, ¬ (s.position 7 symbolId).isEmpty → 0 < s.fallbackPrice symbolId :=
    fun symbolId hopen => absurd rfl hopen
  exact ⟨haccepted, hcovers, order_leaves_solvent s order fills _ _
    (Shard.Sound.of_positions_none fun _ _ => rfl) hcached rfl rfl haccepted rfl hpriced
      hrates honly hfilled hreserve hbefore hafter hcovers⟩

/-- A buy order at twice the mark needs a margin of 20 and leaves an equity of -70. -/
theorem accepted_order_below_maintenance :
    let s : Shard := {
      maxSymbols := 1, liquidation := ⟨[], [], 0, 0, 0, 1, 0⟩
      accounts := Function.update (fun _ => none) 7 (some ⟨7, 30, 0⟩)
      margin := ⟨fun _ => some ⟨1000, 500, 10, 1⟩⟩, markPrices := fun _ => 100 }
    let order : OrderRequest :=
      { userId := 7, symbolId := 0, price := 200, qty := 1, orderId := (0, 1), side := .buy }
    let s' := (s.processOrder order).1.processFill ⟨1, 0, 7, 8, 200, 1, .buy, 0⟩
    (s.processOrder order).2 = .accepted 7 20 (0, 1) ∧
      (s.currentMargin 7).maintenanceMargin ≤ (s.currentMargin 7).equity ∧
      (s.processOrder order).1.FillsOrder order ⟨1, 0, 7, 8, 200, 1, .buy, 0⟩ ∧
      (s'.currentMargin 7).equity = -70 ∧ (s'.currentMargin 7).maintenanceMargin = 5 := by
  decide +kernel

end Rsx.Risk
