import Rsx.Lib.Sums
import Rsx.Risk.PositionIdentity

/-!
# Equity

What `calculate` adds up when nothing saturates: the collateral and, for every configured symbol,
the net quantity times the distance of the mark from the average entry price.  -/

namespace Rsx.Risk

open Book List PortfolioMargin

namespace Position

variable {p : Position} {side : Side} {price qty mark : Int}

/-! ## Sound positions -/

/-- What holds of every position that fills at positive prices built. -/
structure Sound (p : Position) : Prop where
  nonneg : ∀ side, 0 ≤ p.qtyOn side
  cost : ∀ side, 0 ≤ p.costOn side
  oneSided : ∀ side : Side, p.qtyOn side = 0 ∨ p.qtyOn side.opposite = 0
  empty : ∀ side, p.qtyOn side = 0 → p.costOn side = 0

theorem Sound.default (userId symbolId : Nat) :
    Sound { userId := userId, symbolId := symbolId } where
  nonneg := by intro side; cases side <;> exact le_rfl
  cost := by intro side; cases side <;> exact le_rfl
  oneSided := by intro side; cases side <;> exact .inl rfl
  empty := by intro side; cases side <;> exact fun _ => rfl

theorem Sound.closeQty_bounds (h : p.Sound) (side : Side) (hqty : 0 < qty) :
    0 ≤ p.closeQty side qty ∧ p.closeQty side qty ≤ qty ∧
      p.closeQty side qty ≤ p.qtyOn side.opposite := by
  have hnonneg := h.nonneg side.opposite
  unfold closeQty
  split <;> omega

theorem Sound.closeCost_bounds (h : p.Sound) (side : Side) (hqty : 0 < qty) :
    0 ≤ p.closeCost side qty ∧ p.closeCost side qty ≤ p.costOn side.opposite ∧
      (p.closeQty side qty = p.qtyOn side.opposite →
        p.closeCost side qty = p.costOn side.opposite) := by
  obtain ⟨hmin, -, hmax⟩ := h.closeQty_bounds side hqty
  have hcost := h.cost side.opposite
  have hnonneg := h.nonneg side.opposite
  unfold closeCost
  rcases hnonneg.eq_or_lt with hzero | hpos
  · rw [← hzero, Int.tdiv_zero, h.empty _ hzero.symm]
    exact ⟨le_rfl, le_rfl, fun _ => rfl⟩
  · refine ⟨Int.tdiv_nonneg (mul_nonneg hcost hmin) hnonneg, ?_, fun hall => ?_⟩
    · rw [Int.tdiv_eq_ediv_of_nonneg (mul_nonneg hcost hmin)]
      exact Int.ediv_le_of_le_mul hpos (mul_le_mul_of_nonneg_left hmax hcost)
    · rw [hall, Int.mul_tdiv_cancel _ hpos.ne']

theorem Sound.booked (h : p.Sound) (side : Side) (hqty : 0 < qty) (hprice : 0 ≤ price) :
    (p.booked side price qty).Sound := by
  obtain ⟨_, _, _⟩ := h.closeQty_bounds side hqty
  obtain ⟨_, _, hall⟩ := h.closeCost_bounds side hqty
  obtain ⟨_, hownCost⟩ := p.booked_own side price qty
  obtain ⟨_, hoppCost⟩ := p.booked_opposite side price qty
  have hnonneg := h.nonneg side
  have hcost := h.cost side
  have hopen : 0 ≤ price * (qty - p.closeQty side qty) := mul_nonneg hprice (by omega)
  -- unless the other side is used up, nothing is opened
  have hrest : p.closeQty side qty = p.qtyOn side.opposite ∨ p.closeQty side qty = qty := by
    unfold closeQty
    split <;> omega
  have hflat : (p.booked side price qty).qtyOn side = 0 ∨
      (p.booked side price qty).qtyOn side.opposite = 0 := by
    rcases hrest with hused | hused
    · omega
    · rcases h.oneSided side with hzero | hzero
      · omega
      · omega
  have hswap : ∀ {x : Int}, (p.booked side price qty).qtyOn side.opposite.opposite = x ↔
      (p.booked side price qty).qtyOn side = x := by
    cases side <;> exact Iff.rfl
  refine ⟨forall_side side (by omega) (by omega), forall_side side (by omega) (by omega),
    forall_side side hflat ?_, forall_side side (fun hzero => ?_) fun hzero => ?_⟩
  · exact hflat.symm.imp_right hswap.2
  · have hclose : qty - p.closeQty side qty = 0 := by omega
    rw [hownCost, hclose, mul_zero, add_zero]
    exact h.empty _ (by omega)
  · rw [hoppCost, hall (by omega), sub_self]

theorem Sound.applyFill (h : p.Sound) (hfit : p.NoOverflow side price qty) (hqty : 0 < qty)
    (hprice : 0 ≤ price) (seq : Nat) : (p.applyFill side price qty seq).Sound := by
  rw [p.applyFill_eq hfit]
  obtain ⟨hnonneg, hcost, hone, hempty⟩ := h.booked side hqty hprice
  exact ⟨forall_side .buy (hnonneg .buy) (hnonneg .sell), forall_side .buy (hcost .buy)
    (hcost .sell),
    forall_side .buy (hone .buy) (hone .sell), forall_side .buy (hempty .buy) (hempty .sell)⟩

theorem Sound.applyLegs {legs : List Leg} {seq : Nat} (h : p.Sound) (hp : p.Fits)
    (hfit : p.LegsFit seq legs) (hlegs : ∀ leg ∈ legs, 0 < leg.qty ∧ 0 ≤ leg.price) :
    (p.applyLegs seq legs).Sound ∧ (p.applyLegs seq legs).Fits ∧
      (p.applyLegs seq legs).symbolId = p.symbolId := by
  induction legs generalizing p with
  | nil => exact ⟨h, hp, rfl⟩
  | cons leg legs ih =>
    obtain ⟨hqty, hprice⟩ := hlegs leg mem_cons_self
    obtain ⟨hsound, hfits, hsymbol⟩ := ih (h.applyFill hfit.1 hqty hprice seq)
      (booked_fits hfit.1 seq) hfit.2 fun other hmem => hlegs other (mem_cons_of_mem _ hmem)
    refine ⟨hsound, hfits, hsymbol.trans ?_⟩
    rw [p.applyFill_eq hfit.1]
    cases leg.side <;> rfl

/-! ## Gains -/

def gain (p : Position) (mark : Int) : Int :=
  (p.longQty - p.shortQty) * (mark - p.avgEntry)

def GainFits (p : Position) (mark : Int) : Prop :=
  FitsI64 (p.longQty - p.shortQty) ∧ FitsI64 (mark - p.avgEntry) ∧ FitsI64 (p.gain mark)
  deriving Decidable

theorem unrealizedPnl_eq (h : p.GainFits mark) : p.unrealizedPnl mark = some (p.gain mark) := by
  obtain ⟨hnet, hdiff, hgain⟩ := h
  unfold unrealizedPnl
  rw [show p.netQty = p.longQty - p.shortQty from wrap64_of_fits hnet, wrap64_of_fits hdiff]
  split
  · rename_i hzero
    rw [gain, hzero, zero_mul]
  · exact tryI64_of_fits hgain

def sign : Side → Int
  | .buy => 1
  | .sell => -1

theorem net_eq (hflat : p.qtyOn side.opposite = 0) :
    p.longQty - p.shortQty = sign side * p.qtyOn side := by
  cases side <;> dsimp only [qtyOn, Side.opposite, sign] at hflat ⊢ <;> omega

theorem Sound.fits_net (h : p.Sound) (hp : p.Fits) : FitsI64 (p.longQty - p.shortQty) := by
  obtain ⟨_, _, -⟩ := hp
  have hlong0 : 0 ≤ p.longQty := h.nonneg .buy
  have hshort0 : 0 ≤ p.shortQty := h.nonneg .sell
  unfold FitsI64 i64Min i64Max at *
  omega

theorem Sound.netQty_eq (h : p.Sound) (hp : p.Fits) : p.netQty = p.longQty - p.shortQty :=
  wrap64_of_fits (h.fits_net hp)

theorem Sound.avgEntry_eq (h : p.Sound) (hp : p.Fits) (hopen : 0 < p.qtyOn side) :
    p.avgEntry = (p.costOn side).tdiv (p.qtyOn side) := by
  have hflat := (h.oneSided side).resolve_left hopen.ne'
  have hnet := (h.netQty_eq hp).trans (net_eq hflat)
  unfold avgEntry
  cases side with
  | buy =>
    dsimp only [sign, qtyOn, costOn] at *
    rw [if_pos (by omega), if_neg hopen.ne']
  | sell =>
    dsimp only [sign, qtyOn, costOn] at *
    rw [if_neg (by omega), if_pos (by omega), if_neg hopen.ne']

theorem Sound.gain_eq (h : p.Sound) (hp : p.Fits) (hopen : 0 < p.qtyOn side) : p.gain mark =
      sign side * (p.qtyOn side * (mark - (p.costOn side).tdiv (p.qtyOn side))) := by
  have hflat := (h.oneSided side).resolve_left hopen.ne'
  rw [gain, net_eq hflat, h.avgEntry_eq hp hopen, mul_assoc]

theorem gain_flat (hflat : ∀ side, p.qtyOn side = 0) : p.gain mark = 0 := by
  rw [gain, net_eq (hflat (Side.opposite .buy)), hflat .buy, mul_zero, zero_mul]

theorem abs_sign_mul (side : Side) (x : Int) : |sign side * x| = |x| := by
  cases side with
  | buy => rw [sign, one_mul]
  | sell => rw [sign, neg_one_mul, abs_neg]

end Position

/-! ## What `calculate` adds up -/

namespace PortfolioMargin

variable {m : PortfolioMargin} {prices : Nat → Int} {positions : List Position}

def gainOf (m : PortfolioMargin) (prices : Nat → Int) (pos : Position) : Int :=
  if (m.symbolParams pos.symbolId).isSome then pos.gain (prices pos.symbolId) else 0

theorem foldl_addPosition (f : Sums → Int) (v : Position → Int)
    (hadd : ∀ sums, ∀ pos ∈ positions, FitsI64 (f sums) → FitsI64 (f sums + v pos) →
      f (m.addPosition prices sums pos) = f sums + v pos)
    {sums : Sums} (hfits : SumFits (f sums) (positions.map v)) :
    f (positions.foldl (m.addPosition prices) sums) = f sums + (positions.map v).sum := by
  induction positions generalizing sums with
  | nil => exact (add_zero _).symm
  | cons pos positions ih =>
    have hpos := hadd sums pos mem_cons_self hfits.1 hfits.2.start
    have hrest := ih (fun sums other hmem => hadd sums other (mem_cons_of_mem _ hmem))
      (hpos.symm ▸ hfits.2)
    rw [foldl_cons, hrest, hpos, map_cons, sum_cons, add_assoc]

theorem foldl_upnl (hgain : ∀ pos ∈ positions, pos.GainFits (prices pos.symbolId))
    (hfits : SumFits 0 (positions.map (m.gainOf prices))) :
    (positions.foldl (m.addPosition prices) {}).upnl = (positions.map (m.gainOf prices)).sum := by
  have hadd : ∀ sums, ∀ pos ∈ positions, FitsI64 sums.upnl →
      FitsI64 (sums.upnl + m.gainOf prices pos) →
      (m.addPosition prices sums pos).upnl = sums.upnl + m.gainOf prices pos := by
    intro sums pos hmem hsum hnext
    unfold gainOf at hnext ⊢
    unfold addPosition
    cases hparams : m.symbolParams pos.symbolId with
    | none => exact (add_zero _).symm
    | some =>
      rw [hparams, Option.isSome_some, if_pos rfl] at hnext
      rw [Option.isSome_some, if_pos rfl]
      dsimp only
      rw [Position.unrealizedPnl_eq (hgain pos hmem), Option.getD_some, sat64_of_fits hnext]
  have hstart : SumFits ({} : Sums).upnl (positions.map (m.gainOf prices)) := hfits
  exact (foldl_addPosition Sums.upnl (m.gainOf prices) hadd hstart).trans (zero_add _)

end PortfolioMargin

namespace Shard

variable {s : Shard} {userId symbolId : Nat}
  {fill : FillEvent}

/-- Every position is sound, within `i64`, and kept under its own symbol. -/
structure Sound (s : Shard) : Prop where
  sound : ∀ userId symbolId, (s.position userId symbolId).Sound
  fits : ∀ userId symbolId, (s.position userId symbolId).Fits
  symbol : ∀ userId symbolId, (s.position userId symbolId).symbolId = symbolId

theorem Sound.of_positions_none (h : ∀ userId symbolId, s.positions userId symbolId = none) :
    s.Sound := by
  have hdefault : ∀ userId symbolId,
      s.position userId symbolId = { userId := userId, symbolId := symbolId } := by
    intro userId symbolId
    rw [position, h, Option.getD_none]
  refine ⟨fun userId symbolId => ?_, fun userId symbolId => ?_, fun userId symbolId => ?_⟩
  · exact hdefault userId symbolId ▸ Position.Sound.default userId symbolId
  · exact hdefault userId symbolId ▸ Position.fits_default userId symbolId
  · rw [hdefault]

theorem legs_pos (hqty : 0 < fill.qty) (hprice : 0 ≤ fill.price) :
    ∀ leg ∈ legsOf userId symbolId fill, 0 < leg.qty ∧ 0 ≤ leg.price := by
  intro leg hleg
  refine ⟨qty_pos_of_mem_legsOf hqty leg hleg, ?_⟩
  unfold legsOf at hleg
  split_ifs at hleg <;> simp at hleg
  all_goals rcases hleg with rfl | rfl
  all_goals exact hprice

def PartiesFit (s : Shard) (fill : FillEvent) : Prop :=
  s.FillFits fill.takerUserId fill.symbolId fill ∧ s.FillFits fill.makerUserId fill.symbolId fill
  deriving Decidable

theorem PartiesFit.fillFits (h : s.PartiesFit fill) (userId symbolId : Nat) :
    s.FillFits userId symbolId fill := by
  by_cases hsymbol : fill.symbolId = symbolId
  · subst hsymbol
    by_cases htaker : fill.takerUserId = userId
    · exact htaker ▸ h.1
    · by_cases hmaker : fill.makerUserId = userId
      · exact hmaker ▸ h.2
      · intro _
        rw [legsOf, if_pos rfl, if_neg htaker, if_neg hmaker]
        trivial
  · intro _
    rw [legsOf, if_neg hsymbol]
    trivial

theorem Sound.processFill (h : s.Sound) (hqty : 0 < fill.qty)
    (hprice : 0 ≤ fill.price) (hfits : s.PartiesFit fill) : (s.processFill fill).Sound := by
  have hall : ∀ userId symbolId, ((s.processFill fill).position userId symbolId).Sound ∧
      ((s.processFill fill).position userId symbolId).Fits ∧
      ((s.processFill fill).position userId symbolId).symbolId = symbolId := by
    intro userId symbolId
    have hbefore := And.intro (h.sound userId symbolId)
      (And.intro (h.fits userId symbolId) (h.symbol userId symbolId))
    by_cases hshard : s.userInShard userId
    · by_cases hfresh : s.Fresh fill
      · rw [position_processFill hshard hfresh]
        obtain ⟨hsound, hfit, hsymbol⟩ := hbefore.1.applyLegs hbefore.2.1
          (hfits.fillFits userId symbolId hfresh) (legs_pos hqty hprice)
        exact ⟨hsound, hfit, hsymbol.trans hbefore.2.2⟩
      · rw [processFill_of_not_fresh hfresh]
        exact hbefore
    · rw [position_processFill_of_not hshard]
      exact hbefore
  exact ⟨fun u sym => (hall u sym).1, fun u sym => (hall u sym).2.1, fun u sym => (hall u sym).2.2⟩

def PricesCached (s : Shard) : Prop :=
  s.markDirty = false → s.fallbackMarkPrices = s.fallbackPrice

theorem fallback_freshPrices (h : s.PricesCached) :
    s.freshPrices.fallbackMarkPrices = s.fallbackPrice := by
  unfold freshPrices
  split
  · rfl
  · rename_i hclean
    exact h (Bool.eq_false_iff.2 hclean)

def currentMargin (s : Shard) (userId : Nat) : MarginState :=
  s.margin.calculate (s.account userId) (s.iterPositionsForUser userId) s.fallbackPrice
    (s.frozenForUser userId)

def equity (s : Shard) (userId : Nat) : Int :=
  (s.currentMargin userId).equity

def gainIn (s : Shard) (userId symbolId : Nat) : Int :=
  s.margin.gainOf s.fallbackPrice (s.position userId symbolId)

def EquityFits (s : Shard) (userId : Nat) : Prop :=
  (∀ pos ∈ s.iterPositionsForUser userId, pos.GainFits (s.fallbackPrice pos.symbolId)) ∧
    SumFits 0 ((s.iterPositionsForUser userId).map (s.margin.gainOf s.fallbackPrice)) ∧
    FitsI64 ((s.account userId).collateral +
      ((s.iterPositionsForUser userId).map (s.margin.gainOf s.fallbackPrice)).sum)
  deriving Decidable

theorem sum_iterPositionsForUser (s : Shard) (userId : Nat) {v : Position → Int}
    (hdefault : ∀ symbolId, v { userId := userId, symbolId := symbolId } = 0) :
    ((s.iterPositionsForUser userId).map v).sum =
      ∑ symbolId ∈ Finset.range s.maxSymbols, v (s.position userId symbolId) := by
  unfold iterPositionsForUser
  rw [sum_map_filterMap _ _ (fun symbolId => { userId := userId, symbolId := symbolId }) v hdefault]
  rfl

theorem gainOf_default (m : PortfolioMargin) (prices : Nat → Int) (userId symbolId : Nat) :
    m.gainOf prices { userId := userId, symbolId := symbolId } = 0 := by
  unfold gainOf
  split
  · exact zero_mul _
  · rfl

/-- **Equity.**  The collateral and the gains of all symbols. -/
theorem equity_eq (h : s.EquityFits userId) : s.equity userId = (s.account userId).collateral +
    ∑ symbolId ∈ Finset.range s.maxSymbols, s.gainIn userId symbolId := by
  obtain ⟨hgain, hsum, hequity⟩ := h
  unfold equity currentMargin calculate
  dsimp only
  rw [foldl_upnl hgain hsum, sat64_of_fits hequity,
    sum_iterPositionsForUser s userId (gainOf_default s.margin s.fallbackPrice userId)]
  rfl

theorem gainIn_eq (h : s.Sound) (userId symbolId : Nat) : s.gainIn userId symbolId =
    if (s.margin.symbolParams symbolId).isSome then
      (s.position userId symbolId).gain (s.fallbackPrice symbolId)
    else 0 := by
  unfold gainIn gainOf
  rw [h.symbol]

/-! ## Fees -/

theorem collateral_foldl_deductFee {account : Account} {fees : List Int}
    (h : SumFits account.collateral (fees.map (-·))) :
    (fees.foldl Account.deductFee account).collateral = account.collateral - fees.sum := by
  induction fees generalizing account with
  | nil => exact (sub_zero _).symm
  | cons fee fees ih =>
    have hfee : (account.deductFee fee).collateral = account.collateral - fee :=
      sat64_of_fits (sub_eq_add_neg account.collateral fee ▸ h.2.start)
    have hrest : (fees.foldl Account.deductFee (account.deductFee fee)).collateral =
        (account.deductFee fee).collateral - fees.sum :=
      ih (hfee.symm ▸ sub_eq_add_neg account.collateral fee ▸ h.2)
    rw [foldl_cons, hrest, hfee, sum_cons, sub_sub]

/-- The fees of a fill do not saturate the user's collateral. -/
def FeesFit (s : Shard) (userId : Nat) (fill : FillEvent) : Prop :=
  SumFits (s.account userId).collateral ((s.feesOf userId fill).map (-·))
  deriving Decidable

theorem collateral_processFill (hshard : s.userInShard userId)
    (hfresh : s.Fresh fill) (hfees : s.FeesFit userId fill) :
    ((s.processFill fill).account userId).collateral =
      (s.account userId).collateral - (s.feesOf userId fill).sum := by
  rw [account_processFill hshard hfresh]
  exact collateral_foldl_deductFee hfees

end Shard

end Rsx.Risk
