import Rsx.Risk.Equity

/-!
# Equity at a fill

A fill at the mark moves a position between its entry prices and the mark, and its realized profit
out of the position.  What it leaves of the equity follows from the quantity it closes and the
average entry price before it.
-/

namespace Rsx.Risk

open Book

/-! ## Averages -/

theorem split_average {cost close qty : Int} (hclose : 0 ≤ close) (hlt : close < qty) :
    (cost - cost * close / qty) / (qty - close) =
      cost / qty + if (qty - cost % qty) * (qty - close) < qty then 1 else 0 := by
  have hqty : 0 < qty := by omega
  have hrest : 0 < qty - close := by omega
  have hdecomp := Int.mul_ediv_add_emod cost qty
  have hr := Int.emod_nonneg cost hqty.ne'
  have hrlt := Int.emod_lt_of_pos cost hqty
  generalize hadef : cost / qty = a at *
  generalize hrdef : cost % qty = r at *
  have hsplit : cost * close / qty = a * close + r * close / qty := by
    rw [show cost * close = r * close + qty * (a * close) by rw [← hdecomp]; ring,
      Int.add_mul_ediv_left _ _ hqty.ne', add_comm]
  have hu := Int.mul_ediv_add_emod (r * close) qty
  have hulow := Int.emod_nonneg (r * close) hqty.ne'
  have huhigh := Int.emod_lt_of_pos (r * close) hqty
  generalize r * close / qty = u at *
  have hbase : cost - (a * close + u) = (r - u) + (qty - close) * a := by
    rw [← hdecomp]
    ring
  rw [hsplit, hbase, Int.add_mul_ediv_left _ _ hrest.ne', add_comm]
  congr 1
  have hle : u ≤ r := by
    nlinarith
  have hmax : r - u ≤ qty - close := by
    have : r - (qty - close) - 1 < u := by
      nlinarith
    omega
  split_ifs with hround
  · -- the remainder of the rest is a whole unit
    have hge : qty - close ≤ r - u := by
      have : u < r - (qty - close) + 1 := by
        nlinarith
      omega
    rw [le_antisymm hmax hge, Int.ediv_self hrest.ne']
  · have hlt' : r - u < qty - close := by
      have : r - (qty - close) < u := by
        nlinarith
      omega
    exact Int.ediv_eq_zero_of_lt (by omega) hlt'

namespace Position

variable {p : Position} {side : Side} {price qty : Int}

theorem sign_opposite (side : Side) : sign side.opposite = -sign side := by
  cases side <;> rfl

theorem opposite_opposite (side : Side) : side.opposite.opposite = side := by
  cases side <;> rfl

theorem Sound.gain_eq_rem (h : p.Sound) (hp : p.Fits) {side : Side} (hopen : 0 < p.qtyOn side)
    (mark : Int) : p.gain mark =
      sign side * (p.qtyOn side * mark - p.costOn side + p.costOn side % p.qtyOn side) := by
  have hdecomp := Int.mul_ediv_add_emod (p.costOn side) (p.qtyOn side)
  rw [h.gain_eq hp hopen, Int.tdiv_eq_ediv_of_nonneg (h.cost side), mul_sub]
  congr 1
  omega

theorem Sound.abs_net (h : p.Sound) (hflat : p.qtyOn side.opposite = 0) :
    |p.longQty - p.shortQty| = p.qtyOn side := by
  rw [net_eq hflat, abs_sign_mul, abs_of_nonneg (h.nonneg side)]

theorem Sound.gain_added {p' : Position} {paid : Int} (h : p.Sound) (hp : p.Fits) (h' : p'.Sound)
    (hp' : p'.Fits) (hqty : 0 < qty) (hflat : p.qtyOn side.opposite = 0)
    (hown : p'.qtyOn side = p.qtyOn side + qty) (hcost : p'.costOn side = p.costOn side + paid)
    (mark : Int) :
    |p'.gain mark - p.gain mark - sign side * (mark * qty - paid)| ≤ p.qtyOn side + qty - 1 := by
  have hnonneg := h.nonneg side
  have hopen' : 0 < p'.qtyOn side := by omega
  have hrem' := Int.emod_nonneg (p'.costOn side) hopen'.ne'
  have hlt' := Int.emod_lt_of_pos (p'.costOn side) hopen'
  rw [h'.gain_eq_rem hp' hopen']
  generalize p'.costOn side % p'.qtyOn side = rem' at *
  rw [hown, hcost, add_mul, mul_comm qty mark, abs_le]
  rcases hnonneg.eq_or_lt with hzero | hopen
  · rw [gain_flat (forall_side side hzero.symm hflat), ← hzero, h.empty _ hzero.symm]
    cases side <;> dsimp only [sign] <;> omega
  · have hrem := Int.emod_nonneg (p.costOn side) hopen.ne'
    have hlt := Int.emod_lt_of_pos (p.costOn side) hopen
    rw [h.gain_eq_rem hp hopen]
    cases side <;> dsimp only [sign] <;> omega

theorem Sound.gain_open (h : p.Sound) (hp : p.Fits) (hp' : (p.booked side price qty).Fits)
    (hqty : 0 < qty) (hprice : 0 ≤ price) (hflat : p.qtyOn side.opposite = 0) :
    |(p.booked side price qty).gain price - p.gain price| ≤
      |p.longQty - p.shortQty| +
        |(p.booked side price qty).longQty - (p.booked side price qty).shortQty| := by
  have hnot : ¬ 0 < p.qtyOn side.opposite := by omega
  have h' := h.booked side hqty hprice
  obtain ⟨hown, hownCost⟩ := p.booked_own side price qty
  obtain ⟨hopp, -⟩ := p.booked_opposite side price qty
  rw [closeQty_of_not_pos hnot, sub_zero] at hown hownCost hopp
  have hadded := h.gain_added hp h' hp' hqty hflat hown hownCost price
  have hnonneg := h.nonneg side
  rw [sub_self, mul_zero, sub_zero] at hadded
  rw [h.abs_net hflat, h'.abs_net (hopp.trans hflat), hown]
  omega

/-- Whether the average entry price of what a partial close leaves is one higher. -/
def RoundsUp (p : Position) (side : Side) (qty : Int) : Prop :=
  (p.qtyOn side.opposite - p.costOn side.opposite % p.qtyOn side.opposite) *
    (p.qtyOn side.opposite - min qty (p.qtyOn side.opposite)) < p.qtyOn side.opposite
  deriving Decidable

/-- The gain that a fill takes out of the open side: on what it closes, and the rounding on what is
left. -/
def closedGain (p : Position) (side : Side) (price qty : Int) : Int :=
  min qty (p.qtyOn side.opposite) * (price - p.avgEntry) +
    if p.RoundsUp side qty then p.qtyOn side.opposite - min qty (p.qtyOn side.opposite) else 0

theorem Sound.gain_close (h : p.Sound) (hp : p.Fits) (hp' : (p.booked side price qty).Fits)
    (hqty : 0 < qty) (hprice : 0 ≤ price) (hopen : 0 < p.qtyOn side.opposite) :
    (p.booked side price qty).gain price - p.gain price = sign side * p.closedGain side
      price qty := by
  have h' := h.booked side hqty hprice
  have hzero : p.qtyOn side = 0 := (h.oneSided side).resolve_right hopen.ne'
  obtain ⟨hown, hownCost⟩ := p.booked_own side price qty
  obtain ⟨hopp, hoppCost⟩ := p.booked_opposite side price qty
  have hclose : p.closeQty side qty = min qty (p.qtyOn side.opposite) := closeQty_of_pos hopen
  have hcost := h.cost side.opposite
  have havg : p.avgEntry = p.costOn side.opposite / p.qtyOn side.opposite := by
    rw [h.avgEntry_eq hp hopen, Int.tdiv_eq_ediv_of_nonneg hcost]
  have hgain : p.gain price = -sign side * (p.qtyOn side.opposite * (price - p.avgEntry)) := by
    rw [h.gain_eq hp hopen, h.avgEntry_eq hp hopen, sign_opposite]
  unfold closedGain
  rcases lt_or_ge qty (p.qtyOn side.opposite) with hlt | hge
  · rw [min_eq_left hlt.le] at hclose ⊢
    rw [hclose] at hopp
    have hopen' : 0 < (p.booked side price qty).qtyOn side.opposite := by omega
    have hsplit := @split_average (p.costOn side.opposite) qty _ hqty.le hlt
    have hround : p.RoundsUp side qty ↔
        (p.qtyOn side.opposite - p.costOn side.opposite % p.qtyOn side.opposite) *
          (p.qtyOn side.opposite - qty) < p.qtyOn side.opposite := by
      rw [RoundsUp, min_eq_left hlt.le]
    have hclosed : p.closeCost side qty = p.costOn side.opposite * qty / p.qtyOn side.opposite := by
      rw [closeCost, hclose, Int.tdiv_eq_ediv_of_nonneg (mul_nonneg hcost hqty.le)]
    rw [h'.gain_eq hp' hopen', Int.tdiv_eq_ediv_of_nonneg (h'.cost _), hgain, hopp, hoppCost,
      hclosed, hsplit, sign_opposite, havg]
    simp only [hround]
    split_ifs <;> ring
  · rw [min_eq_right hge] at hclose ⊢
    have hrest : (p.booked side price qty).gain price = 0 := by
      rcases hge.eq_or_lt with heq | hlt
      · refine gain_flat (forall_side side ?_ ?_)
        · omega
        · omega
      · have hopen' : 0 < (p.booked side price qty).qtyOn side := by omega
        rw [h'.gain_eq hp' hopen', hown, hownCost, hzero, h.empty _ hzero, zero_add, zero_add,
          Int.mul_tdiv_cancel _ (by omega), sub_self, mul_zero, mul_zero]
    rw [hrest, hgain, sub_self, ite_self]
    ring

/-- The equity survives a fill at the mark: the fill opens, or what it closes is worth its cost up
to the rounding. -/
def Continuous (p : Position) (side : Side) (price qty : Int) : Prop :=
  0 < p.qtyOn side.opposite →
    |p.closedGain side price qty| ≤ p.qtyOn side.opposite + |p.qtyOn side.opposite - qty|
  deriving Decidable

theorem Sound.continuous_iff (h : p.Sound) (hp : p.Fits) (hp' : (p.booked side price qty).Fits)
    (hqty : 0 < qty) (hprice : 0 ≤ price) :
    |(p.booked side price qty).gain price - p.gain price| ≤
      |p.longQty - p.shortQty| +
        |(p.booked side price qty).longQty - (p.booked side price qty).shortQty| ↔
    p.Continuous side price qty := by
  rcases (h.nonneg side.opposite).eq_or_lt with hflat | hopen
  · have hopens := h.gain_open hp hp' hqty hprice hflat.symm
    exact iff_of_true hopens fun hpos => absurd hflat hpos.ne
  · have hzero : p.qtyOn side.opposite.opposite = 0 := by
      rw [opposite_opposite]
      exact (h.oneSided side).resolve_right hopen.ne'
    have hnet' : |(p.booked side price qty).longQty - (p.booked side price qty).shortQty| =
        |p.qtyOn side.opposite - qty| := by
      rw [p.booked_net, net_eq hzero]
      cases side <;> dsimp only [sign, Leg.signed, Side.opposite]
      · rw [abs_sub_comm]
        congr 1
        ring
      · rw [one_mul, sub_eq_add_neg]
    rw [h.gain_close hp hp' hqty hprice hopen, abs_sign_mul, h.abs_net hzero, hnet']
    exact ⟨fun hle _ => hle, fun hle => hle hopen⟩

/-! ## Trades with oneself -/

/-- The average entry price after a fill and the opposite fill at the same price. -/
def washEntry (p : Position) (side : Side) (price qty : Int) : Int :=
  if 0 < p.qtyOn side then
    let cost := p.costOn side + price * qty
    (cost - cost * qty / (p.qtyOn side + qty)) / p.qtyOn side
  else if qty < p.qtyOn side.opposite then
    let cost := p.costOn side.opposite
    (cost - cost * qty / p.qtyOn side.opposite + price * qty) / p.qtyOn side.opposite
  else price

theorem Sound.wash_own (h : p.Sound) (hqty : 0 < qty) (hprice : 0 ≤ price)
    (hopen : 0 < p.qtyOn side) :
    let p' := (p.booked side price qty).booked side.opposite price qty
    p'.qtyOn side = p.qtyOn side ∧ p'.costOn side = p.costOn side + price * qty -
        (p.costOn side + price * qty) * qty / (p.qtyOn side + qty) := by
  have hflat := (h.oneSided side).resolve_left hopen.ne'
  obtain ⟨hown, hownCost⟩ := p.booked_own side price qty
  have hback := (p.booked side price qty).booked_opposite side.opposite price qty
  rw [closeQty_of_not_pos (not_lt.2 hflat.le), sub_zero] at hown hownCost
  rw [opposite_opposite] at hback
  have hpos : 0 < (p.booked side price qty).qtyOn side.opposite.opposite := by
    rw [opposite_opposite]
    omega
  have hclose : (p.booked side price qty).closeQty side.opposite qty = qty := by
    rw [closeQty_of_pos hpos, opposite_opposite]
    omega
  have hcost : 0 ≤ p.costOn side + price * qty :=
    add_nonneg (h.cost side) (mul_nonneg hprice hqty.le)
  have hclosed : (p.booked side price qty).closeCost side.opposite qty =
      (p.costOn side + price * qty) * qty / (p.qtyOn side + qty) := by
    rw [closeCost, hclose, opposite_opposite, hown, hownCost,
      Int.tdiv_eq_ediv_of_nonneg (mul_nonneg hcost hqty.le)]
  refine ⟨?_, ?_⟩
  · rw [hback.1, hclose, hown, add_sub_cancel_right]
  · rw [hback.2, hclosed, hownCost]

theorem Sound.wash_opposite (h : p.Sound) (hqty : 0 < qty) (hopen : 0 < p.qtyOn side.opposite) :
    let p' := (p.booked side price qty).booked side.opposite price qty
    p'.qtyOn side.opposite = p.qtyOn side.opposite ∧ p'.costOn side.opposite =
        if qty < p.qtyOn side.opposite then
          p.costOn side.opposite - p.costOn side.opposite * qty / p.qtyOn side.opposite +
            price * qty
        else price * p.qtyOn side.opposite := by
  have hzero : p.qtyOn side = 0 := (h.oneSided side).resolve_right hopen.ne'
  obtain ⟨hown, -⟩ := p.booked_own side price qty
  obtain ⟨hopp, hoppCost⟩ := p.booked_opposite side price qty
  obtain ⟨hback, hbackCost⟩ := (p.booked side price qty).booked_own side.opposite price qty
  have hclose : p.closeQty side qty = min qty (p.qtyOn side.opposite) := closeQty_of_pos hopen
  -- the second fill closes what the first one opened beyond the old position
  have hclose' : (p.booked side price qty).closeQty side.opposite qty =
      qty - min qty (p.qtyOn side.opposite) := by
    unfold closeQty
    rw [opposite_opposite]
    split <;> omega
  have hcost := h.cost side.opposite
  refine ⟨?_, ?_⟩
  · rw [hback]
    omega
  · rw [hbackCost, hoppCost, hclose', closeCost, hclose]
    split_ifs with hlt
    · rw [min_eq_left hlt.le, Int.tdiv_eq_ediv_of_nonneg (mul_nonneg hcost hqty.le), sub_self,
        sub_zero]
    · rw [min_eq_right (not_lt.1 hlt), Int.mul_tdiv_cancel _ hopen.ne', sub_self, zero_add,
        sub_sub_cancel]

theorem Sound.avgEntry_wash (h : p.Sound) (hqty : 0 < qty) (hprice : 0 ≤ price)
    (hp' : ((p.booked side price qty).booked side.opposite price qty).Fits)
    (hopen : p.longQty - p.shortQty ≠ 0) :
    ((p.booked side price qty).booked side.opposite price qty).avgEntry =
      p.washEntry side price qty := by
  have h' := (h.booked side hqty hprice).booked side.opposite hqty hprice
  unfold washEntry
  rcases (h.nonneg side).eq_or_lt with hzero | hown
  · have hopp : 0 < p.qtyOn side.opposite := by
      have hnonneg := h.nonneg side.opposite
      have hflat : p.qtyOn side.opposite.opposite = 0 := by
        rw [opposite_opposite]
        exact hzero.symm
      rw [net_eq hflat] at hopen
      exact hnonneg.lt_of_ne' (right_ne_zero_of_mul hopen)
    obtain ⟨hback, hcost⟩ := h.wash_opposite hqty hopp
    rw [if_neg hzero.not_lt, h'.avgEntry_eq hp' (hback.symm ▸ hopp),
      Int.tdiv_eq_ediv_of_nonneg (h'.cost _), hback, hcost]
    split_ifs with hlt
    · rfl
    · exact Int.mul_ediv_cancel _ hopp.ne'
  · obtain ⟨hback, hcost⟩ := h.wash_own hqty hprice hown
    rw [if_pos hown, h'.avgEntry_eq hp' (hback.symm ▸ hown),
      Int.tdiv_eq_ediv_of_nonneg (h'.cost _), hback, hcost]

def WashContinuous (p : Position) (side : Side) (price qty : Int) : Prop :=
  p.longQty - p.shortQty = 0 ∨ |p.avgEntry - p.washEntry side price qty| ≤ 2
  deriving Decidable

theorem Sound.washContinuous_iff (h : p.Sound) (hqty : 0 < qty) (hprice : 0 ≤ price)
    (hp' : ((p.booked side price qty).booked side.opposite price qty).Fits) :
    let p' := (p.booked side price qty).booked side.opposite price qty
    |p'.gain price - p.gain price| ≤ |p.longQty - p.shortQty| + |p'.longQty - p'.shortQty| ↔
      p.WashContinuous side price qty := by
  intro p'
  have hnet : p'.longQty - p'.shortQty = p.longQty - p.shortQty := by
    rw [booked_net, booked_net]
    cases side <;> dsimp only [Leg.signed, Side.opposite] <;> ring
  unfold WashContinuous
  rcases eq_or_ne (p.longQty - p.shortQty) 0 with hzero | hne
  · rw [gain, gain, hnet, hzero]
    simp
  · have hpos : 0 < |p.longQty - p.shortQty| := abs_pos.2 hne
    have hshift : p'.gain price - p.gain price =
        (p.longQty - p.shortQty) * (p.avgEntry - p.washEntry side price qty) := by
      rw [gain, gain, hnet, h.avgEntry_wash hqty hprice hp' hne]
      ring
    rw [hshift, hnet, abs_mul, ← mul_two, mul_le_mul_iff_right₀ hpos]
    exact ⟨.inr, fun hor => hor.resolve_left hne⟩

/-! ## The legs of a fill -/

theorem gain_applyFill (hfit : p.NoOverflow side price qty) (seq : Nat) (mark : Int) :
    (p.applyFill side price qty seq).gain mark = (p.booked side price qty).gain mark ∧
      (p.applyFill side price qty seq).longQty - (p.applyFill side price qty seq).shortQty =
        (p.booked side price qty).longQty - (p.booked side price qty).shortQty := by
  rw [p.applyFill_eq hfit]
  exact ⟨rfl, rfl⟩

theorem booked_stamped (p : Position) (side : Side) (price qty : Int) (version seq : Nat) :
    ({ p with version := version, lastFillSeq := seq } : Position).booked side price qty =
      { p.booked side price qty with version := version, lastFillSeq := seq } := by
  cases side <;> rfl

theorem gain_applyLegs_pair {seq : Nat} {side' : Side}
    (hfit : p.LegsFit seq [⟨side, price, qty⟩, ⟨side', price, qty⟩]) (mark : Int) :
    let p' := (p.booked side price qty).booked side' price qty
    let applied := p.applyLegs seq [⟨side, price, qty⟩, ⟨side', price, qty⟩]
    applied.gain mark = p'.gain mark ∧
      applied.longQty - applied.shortQty = p'.longQty - p'.shortQty ∧ p'.Fits := by
  intro p' applied
  obtain ⟨hfirst, hsecond, -⟩ := hfit
  obtain ⟨hgain, hnet⟩ := gain_applyFill hsecond seq mark
  have hbooked : (p.applyFill side price qty seq).booked side' price qty =
      { p' with version := p.version + 1, lastFillSeq := seq } := by
    rw [p.applyFill_eq hfirst, booked_stamped]
  refine ⟨hgain.trans ?_, hnet.trans ?_, ?_⟩
  · rw [hbooked]
    rfl
  · rw [hbooked]
  · have hfits := hsecond.2.2.2.2
    rw [hbooked] at hfits
    exact hfits

end Position

namespace Shard

variable {s : Shard} {userId : Nat} {fill : FillEvent}

/-- When a fill at the mark keeps the equity of a user: the symbol does not count, or the legs they
take are worth what they cost. -/
def KeepsEquity (s : Shard) (userId : Nat) (fill : FillEvent) : Prop :=
  (s.margin.symbolParams fill.symbolId).isSome →
    let p := s.position userId fill.symbolId
    if fill.takerUserId = userId ∧ fill.makerUserId = userId then
      p.WashContinuous fill.takerSide fill.price fill.qty
    else
      (fill.takerUserId = userId → p.Continuous fill.takerSide fill.price fill.qty) ∧
        (fill.makerUserId = userId → p.Continuous fill.takerSide.opposite fill.price fill.qty)

def net (s : Shard) (userId symbolId : Nat) : Int :=
  (s.position userId symbolId).longQty - (s.position userId symbolId).shortQty

theorem gain_processFill_iff (hsound : s.Sound) (hshard : s.userInShard userId)
    (hfresh : s.Fresh fill) (hqty : 0 < fill.qty) (hprice : 0 ≤ fill.price)
    (hfits : s.FillFits userId fill.symbolId fill) :
    |((s.processFill fill).position userId fill.symbolId).gain fill.price -
        (s.position userId fill.symbolId).gain fill.price| ≤
      |s.net userId fill.symbolId| + |(s.processFill fill).net userId fill.symbolId| ↔
    if fill.takerUserId = userId ∧ fill.makerUserId = userId then
      (s.position userId fill.symbolId).WashContinuous fill.takerSide fill.price fill.qty
    else
      (fill.takerUserId = userId →
        (s.position userId fill.symbolId).Continuous fill.takerSide fill.price fill.qty) ∧
      (fill.makerUserId = userId →
        (s.position userId fill.symbolId).Continuous fill.takerSide.opposite
          fill.price fill.qty) := by
  have hp := hsound.sound userId fill.symbolId
  have hpFits := hsound.fits userId fill.symbolId
  have hlegs := hfits hfresh
  unfold net
  rw [position_processFill hshard hfresh]
  generalize s.position userId fill.symbolId = p at *
  have hone : ∀ side, p.LegsFit fill.seq [⟨side, fill.price, fill.qty⟩] →
      (|(p.applyLegs fill.seq [⟨side, fill.price, fill.qty⟩]).gain fill.price - p.gain fill.price| ≤
        |p.longQty - p.shortQty| +
          |(p.applyLegs fill.seq [⟨side, fill.price, fill.qty⟩]).longQty -
            (p.applyLegs fill.seq [⟨side, fill.price, fill.qty⟩]).shortQty| ↔
        p.Continuous side fill.price fill.qty) := by
    intro side hleg
    obtain ⟨hgain, hnet⟩ := Position.gain_applyFill hleg.1 fill.seq fill.price
    have hiff := hp.continuous_iff hpFits hleg.1.2.2.2.2 hqty hprice
    rw [← hgain, ← hnet] at hiff
    exact hiff
  unfold legsOf at hlegs ⊢
  rw [if_pos rfl] at hlegs ⊢
  by_cases htaker : fill.takerUserId = userId <;> by_cases hmaker : fill.makerUserId = userId
  · rw [if_pos htaker, if_pos hmaker] at hlegs ⊢
    rw [if_pos ⟨htaker, hmaker⟩]
    obtain ⟨hgain, hnet, hfit⟩ := Position.gain_applyLegs_pair hlegs fill.price
    have hiff := hp.washContinuous_iff hqty hprice hfit
    dsimp only at hiff
    rw [← hgain, ← hnet] at hiff
    exact hiff
  · rw [if_pos htaker, if_neg hmaker] at hlegs ⊢
    rw [if_neg fun h => hmaker h.2]
    refine (hone fill.takerSide hlegs).trans ⟨fun h => ⟨fun _ => h, fun hm => absurd hm hmaker⟩, ?_⟩
    exact fun h => h.1 htaker
  · rw [if_neg htaker, if_pos hmaker] at hlegs ⊢
    rw [if_neg fun h => htaker h.1]
    refine (hone fill.takerSide.opposite hlegs).trans
      ⟨fun h => ⟨fun ht => absurd ht htaker, fun _ => h⟩, ?_⟩
    exact fun h => h.2 hmaker
  · rw [if_neg htaker, if_neg hmaker, if_neg fun h => htaker h.1]
    refine iff_of_true ?_ ⟨fun ht => absurd ht htaker, fun hm => absurd hm hmaker⟩
    rw [List.append_nil, Position.applyLegs, List.foldl_nil, sub_self]
    exact add_nonneg (abs_nonneg _) (abs_nonneg _)

theorem equity_processFill (hshard : s.userInShard userId) (hfresh : s.Fresh fill)
    (hfees : s.FeesFit userId fill) (hbefore : s.EquityFits userId)
    (hafter : (s.processFill fill).EquityFits userId) :
    (s.processFill fill).equity userId - s.equity userId + (s.feesOf userId fill).sum =
      (s.processFill fill).gainIn userId fill.symbolId - s.gainIn userId fill.symbolId := by
  have hsymbols : (s.processFill fill).maxSymbols = s.maxSymbols := by
    obtain ⟨_, _, _, _, _, _, _, _, _, hfill⟩ := s.processFill_frame fill
    rw [hfill]
  have hother : ∀ symbolId ∈ Finset.range s.maxSymbols, symbolId ≠ fill.symbolId →
      (s.processFill fill).gainIn userId symbolId = s.gainIn userId symbolId := by
    intro symbolId _ hne
    have hposition : (s.processFill fill).position userId symbolId =
        s.position userId symbolId := by
      rw [position_processFill hshard hfresh, legsOf, if_neg hne.symm]
      rfl
    unfold gainIn
    rw [hposition]
    obtain ⟨_, _, _, _, _, _, _, _, _, hfill⟩ := s.processFill_frame fill
    rw [hfill]
    rfl
  have hsum := sum_sub_of_change (Finset.mem_range.2 hfresh.1) hother
  rw [equity_eq hbefore, equity_eq hafter, collateral_processFill hshard hfresh hfees, hsymbols,
    ← hsum]
  ring

end Shard

/-- **Equity at a fill.**  A fill at the mark price changes the equity of each party by minus their
fee, up to the rounding of the average entry price before and after, exactly when the legs they take
are worth what they cost; otherwise the realized profit or loss is not in the equity afterwards. -/
theorem equity_continuity (s : Shard) (fill : FillEvent) (userId : Nat) (hsound : s.Sound)
    (hshard : s.userInShard userId) (hfresh : s.Fresh fill) (hqty : 0 < fill.qty)
    (hprice : 0 < fill.price) (hmark : s.markPrices fill.symbolId = fill.price)
    (hfits : s.FillFits userId fill.symbolId fill) (hfees : s.FeesFit userId fill)
    (hbefore : s.EquityFits userId) (hafter : (s.processFill fill).EquityFits userId) :
    |(s.processFill fill).equity userId - s.equity userId + (s.feesOf userId fill).sum| ≤
      |s.net userId fill.symbolId| + |(s.processFill fill).net userId fill.symbolId| ↔
    s.KeepsEquity userId fill := by
  have hgain := Shard.gain_processFill_iff hsound hshard hfresh hqty hprice.le hfits
  have hfallback : s.fallbackPrice fill.symbolId = fill.price := by
    rw [Shard.fallbackPrice, if_neg, hmark]
    omega
  have hfallback' : (s.processFill fill).fallbackPrice fill.symbolId = fill.price := by
    obtain ⟨_, _, _, _, _, _, _, _, _, hfill⟩ := s.processFill_frame fill
    rw [hfill]
    exact hfallback
  have hmargin : (s.processFill fill).margin = s.margin := by
    obtain ⟨_, _, _, _, _, _, _, _, _, hfill⟩ := s.processFill_frame fill
    rw [hfill]
  have hsymbol : ((s.processFill fill).position userId fill.symbolId).symbolId = fill.symbolId := by
    rw [Shard.position_processFill hshard hfresh]
    obtain ⟨-, -, hsame⟩ := (hsound.sound userId fill.symbolId).applyLegs
      (hsound.fits userId fill.symbolId) (hfits hfresh) (Shard.legs_pos hqty hprice.le)
    exact hsame.trans (hsound.symbol userId fill.symbolId)
  rw [Shard.equity_processFill hshard hfresh hfees hbefore hafter]
  unfold Shard.gainIn PortfolioMargin.gainOf Shard.KeepsEquity
  rw [hsymbol, hsound.symbol, hfallback, hfallback', hmargin]
  by_cases hconfigured : (s.margin.symbolParams fill.symbolId).isSome
  · rw [if_pos hconfigured, if_pos hconfigured]
    exact hgain.trans ⟨fun h _ => h, fun h => h hconfigured⟩
  · rw [if_neg hconfigured, if_neg hconfigured, sub_self, abs_zero]
    exact iff_of_true (add_nonneg (abs_nonneg _) (abs_nonneg _)) fun h => absurd h hconfigured

/-- A user who bought 2 at the mark sells 1 there and pays the fee. -/
theorem equity_continuity_at_entry :
    let start : Shard := {
      maxSymbols := 1, liquidation := ⟨[], [], 0, 0, 0, 1, 0⟩
      margin := ⟨fun _ => some ⟨1000, 500, 0, 0⟩⟩
      markPrices := fun _ => 100, takerFeeBps := fun _ => 100 }
    let s := start.processFill ⟨1, 0, 7, 8, 100, 2, .buy, 0⟩
    let fill : FillEvent := ⟨2, 0, 7, 8, 100, 1, .sell, 0⟩
    s.Fresh fill ∧ s.feesOf 7 fill = [1] ∧ s.KeepsEquity 7 fill ∧
      |(s.processFill fill).equity 7 - s.equity 7 + (s.feesOf 7 fill).sum| ≤
        |s.net 7 0| + |(s.processFill fill).net 7 0| := by
  intro start s fill
  have hstart : start.PartiesFit ⟨1, 0, 7, 8, 100, 2, .buy, 0⟩ := by decide +kernel
  have hsound : s.Sound := (Shard.Sound.of_positions_none fun _ _ => rfl).processFill (by decide)
    (by decide) hstart
  have hall : s.userInShard 7 ∧ s.Fresh fill ∧ s.markPrices 0 = 100 ∧ s.FillFits 7 0 fill ∧
      s.FeesFit 7 fill ∧ s.EquityFits 7 ∧ (s.processFill fill).EquityFits 7 ∧
      s.feesOf 7 fill = [1] ∧ (s.position 7 0).Continuous .sell 100 1 := by decide +kernel
  obtain ⟨hshard, hfresh, hmark, hfits, hfees, hbefore, hafter, hfee, hcontinuous⟩ := hall
  clear_value s
  have hkeeps : s.KeepsEquity 7 fill := by
    intro _
    exact ⟨fun _ => hcontinuous, fun hmaker => absurd hmaker (by decide)⟩
  exact ⟨hfresh, hfee, hkeeps, (equity_continuity s fill 7 hsound hshard hfresh (by decide)
    (by decide) hmark hfits hfees hbefore hafter).2 hkeeps⟩

/-- A user who bought 1 at 100 is worth 100 at a mark of 200, and nothing after selling there. -/
theorem close_at_mark_loses_profit :
    let start : Shard := {
      maxSymbols := 1, liquidation := ⟨[], [], 0, 0, 0, 1, 0⟩
      margin := ⟨fun _ => some ⟨1000, 500, 0, 0⟩⟩ }
    let s := (start.processFill ⟨1, 0, 7, 8, 100, 1, .buy, 0⟩).updateMark 0 200
    let fill : FillEvent := ⟨2, 0, 7, 8, 200, 1, .sell, 0⟩
    s.markPrices 0 = fill.price ∧ s.feesOf 7 fill = [0] ∧ s.equity 7 = 100 ∧
      (s.processFill fill).equity 7 = 0 ∧
      ¬ |(s.processFill fill).equity 7 - s.equity 7 + (s.feesOf 7 fill).sum| ≤
        |s.net 7 0| + |(s.processFill fill).net 7 0| := by
  decide +kernel

end Rsx.Risk
