import Rsx.Risk.Position

/-!
# What a position adds up to

A fill closes what it can of the opposite side and opens the rest.  Within `i64` this is exact
arithmetic, `booked`; the cash identity and the bounds of the entry cost are invariants of it, over
every history of fills.
-/

namespace Rsx.Risk

open Book List Position Side

namespace Position

variable {p : Position} {side : Side} {price qty : Int}

/-! ## Exact booking -/

def qtyOn (p : Position) : Side → Int
  | .buy => p.longQty
  | .sell => p.shortQty

def costOn (p : Position) : Side → Int
  | .buy => p.longEntryCost
  | .sell => p.shortEntryCost

def closeQty (p : Position) (side : Side) (qty : Int) : Int :=
  if 0 < p.qtyOn side.opposite then min qty (p.qtyOn side.opposite) else 0

def closeCost (p : Position) (side : Side) (qty : Int) : Int :=
  (p.costOn side.opposite * p.closeQty side qty).tdiv (p.qtyOn side.opposite)

def closeProfit (p : Position) (side : Side) (price qty : Int) : Int :=
  match side with
  | .buy => p.closeCost .buy qty - price * p.closeQty .buy qty
  | .sell => price * p.closeQty .sell qty - p.closeCost .sell qty

def booked (p : Position) (side : Side) (price qty : Int) : Position :=
  let close := p.closeQty side qty
  let cost := p.closeCost side qty
  match side with
  | .buy =>
    { p with
      realizedPnl := p.realizedPnl + p.closeProfit .buy price qty
      shortQty := p.shortQty - close
      shortEntryCost := p.shortEntryCost - cost
      longQty := p.longQty + (qty - close)
      longEntryCost := p.longEntryCost + price * (qty - close) }
  | .sell =>
    { p with
      realizedPnl := p.realizedPnl + p.closeProfit .sell price qty
      longQty := p.longQty - close
      longEntryCost := p.longEntryCost - cost
      shortQty := p.shortQty + (qty - close)
      shortEntryCost := p.shortEntryCost + price * (qty - close) }

def Fits (p : Position) : Prop :=
  FitsI64 p.longQty ∧ FitsI64 p.shortQty ∧ FitsI64 p.longEntryCost ∧ FitsI64 p.shortEntryCost ∧
    FitsI64 p.realizedPnl
  deriving Decidable

def NoOverflow (p : Position) (side : Side) (price qty : Int) : Prop :=
  FitsI64 (qty - p.closeQty side qty) ∧ FitsI64 (p.closeCost side qty) ∧
    FitsI64 (p.closeProfit side price qty) ∧ FitsI64 (price * (qty - p.closeQty side qty)) ∧
    (p.booked side price qty).Fits
  deriving Decidable

theorem closeQty_of_pos (h : 0 < p.qtyOn side.opposite) :
    p.closeQty side qty = min qty (p.qtyOn side.opposite) :=
  if_pos h

section

variable (h : ¬ 0 < p.qtyOn side.opposite)
include h

theorem closeQty_of_not_pos : p.closeQty side qty = 0 :=
  if_neg h

theorem closeCost_of_not_pos : p.closeCost side qty = 0 := by
  unfold closeCost
  rw [closeQty_of_not_pos h, mul_zero, Int.zero_tdiv]

theorem closeProfit_of_not_pos : p.closeProfit side price qty = 0 := by
  cases side with
  | buy | sell => simp [closeProfit, closeQty_of_not_pos h, closeCost_of_not_pos h]

end

theorem applyFill_ids (p : Position) (side : Side) (price qty : Int) (seq : Nat) :
    (p.applyFill side price qty seq).userId = p.userId ∧
      (p.applyFill side price qty seq).symbolId = p.symbolId ∧
      (p.applyFill side price qty seq).version = p.version + 1 := by
  unfold applyFill
  cases side with
  | buy | sell =>
    dsimp only
    split_ifs <;> exact ⟨rfl, rfl, rfl⟩

theorem applyFill_eq (h : p.NoOverflow side price qty) (seq : Nat) :
    p.applyFill side price qty seq =
      { p.booked side price qty with version := p.version + 1, lastFillSeq := seq } := by
  obtain ⟨hrest, hcost, hprofit, hopen, hlong, hshort, hlongCost, hshortCost, hpnl⟩ := h
  by_cases hpos : 0 < p.qtyOn side.opposite
  · have hclose : p.closeQty side qty = _ := closeQty_of_pos hpos
    cases side with
    | buy | sell =>
      dsimp only [opposite, qtyOn] at hpos hclose
      dsimp only [booked, closeProfit] at hprofit hlong hshort hlongCost hshortCost hpnl
      simp only [closeCost, opposite, qtyOn, costOn, hclose] at hrest hcost hprofit hopen hlong
      simp only [closeCost, opposite, qtyOn, costOn, hclose] at hshort hlongCost hshortCost hpnl
      unfold applyFill booked closeProfit closeCost
      simp only [if_pos hpos, hclose, opposite, qtyOn, costOn, wrap64_of_fits hrest,
        sat64_of_fits hcost, sat64_of_fits hprofit, wrap64_of_fits hpnl, wrap64_of_fits hshort,
        wrap64_of_fits hshortCost, sat64_of_fits hopen, wrap64_of_fits hlong,
        wrap64_of_fits hlongCost]
      split_ifs with hleft
      · rfl
      · have hzero := le_antisymm (not_lt.1 hleft) (sub_nonneg.2 (min_le_left _ _))
        rw [hzero, mul_zero, add_zero, add_zero]
  · have hclose : p.closeQty side qty = 0 := closeQty_of_not_pos hpos
    have hcost0 : p.closeCost side qty = 0 := closeCost_of_not_pos hpos
    have hprofit0 : p.closeProfit side price qty = 0 := closeProfit_of_not_pos hpos
    cases side with
    | buy | sell =>
      dsimp only [opposite, qtyOn] at hpos
      dsimp only [booked] at hlong hshort hlongCost hshortCost
      simp only [hclose, hcost0, sub_zero] at hlong hshort hlongCost hshortCost hopen
      unfold applyFill booked
      simp only [if_neg hpos, hclose, hcost0, hprofit0, sub_zero, add_zero, sat64_of_fits hopen,
        wrap64_of_fits hlong, wrap64_of_fits hshort, wrap64_of_fits hlongCost,
        wrap64_of_fits hshortCost]

end Position

/-! ## Histories -/

structure Leg where
  side : Side
  price : Int
  qty : Int
  deriving DecidableEq, Repr

def Leg.signed (leg : Leg) : Int :=
  match leg.side with
  | .buy => leg.qty
  | .sell => -leg.qty

def Leg.cash (leg : Leg) : Int :=
  match leg.side with
  | .buy => -(leg.price * leg.qty)
  | .sell => leg.price * leg.qty

/-- What is open after a history: the net quantity, the prices of the fills that opened it, and how
often a part of it was closed. -/
structure Opened where
  net : Int := 0
  prices : List Int := []
  partialCloses : Nat := 0
  deriving DecidableEq, Repr

/-- A fill opens, adds, closes a part, closes, or closes and opens the other side. -/
def Opened.add (o : Opened) (leg : Leg) : Opened :=
  let net := o.net + leg.signed
  if 0 ≤ o.net * leg.signed then { o with net := net, prices := o.prices ++ [leg.price] }
  else if leg.qty < o.net.natAbs then { o with net := net, partialCloses := o.partialCloses + 1 }
  else if net = 0 then {}
  else { net := net, prices := [leg.price] }

def opened (legs : List Leg) : Opened :=
  legs.foldl Opened.add {}

/-- The cost of a leg of quantity `qty` lies between the prices, up to one unit for each close. -/
def Opened.Bounds (o : Opened) (qty cost : Int) : Prop :=
  ∀ lo hi, (∀ price ∈ o.prices, lo ≤ price ∧ price ≤ hi) →
    lo * qty - o.partialCloses ≤ cost ∧ cost ≤ hi * qty + o.partialCloses

structure Books (legs : List Leg) (p : Position) : Prop where
  net : p.longQty - p.shortQty = (legs.map Leg.signed).sum
  cash : p.realizedPnl + p.shortEntryCost - p.longEntryCost = (legs.map Leg.cash).sum
  nonneg : ∀ side, 0 ≤ p.qtyOn side
  oneSided : ∀ side : Side, p.qtyOn side = 0 ∨ p.qtyOn side.opposite = 0
  empty : ∀ side, p.qtyOn side = 0 → p.costOn side = 0
  bounds : ∀ side, 0 < p.qtyOn side → (opened legs).Bounds (p.qtyOn side) (p.costOn side)

theorem opened_append (legs : List Leg) (leg : Leg) :
    opened (legs ++ [leg]) = (opened legs).add leg := by
  unfold opened
  rw [foldl_append]
  rfl

theorem split_bounds {cost close qty : Int} (hqty : 0 < qty) :
    cost * close - qty < qty * (cost * close).tdiv qty ∧
      qty * (cost * close).tdiv qty < cost * close + qty := by
  have hdecomp := Int.mul_tdiv_add_tmod (cost * close) qty
  have hlt := Int.tmod_lt_of_pos (cost * close) hqty
  have hgt := Int.lt_tmod_of_pos (cost * close) hqty
  constructor <;> omega

theorem partial_bounds {lo hi qty close cost : Int} {k : Nat} (hclose : 0 < close)
    (hlt : close < qty) (hlow : lo * qty - k ≤ cost) (hhigh : cost ≤ hi * qty + k) :
    lo * (qty - close) - (k + 1 : Nat) ≤ cost - (cost * close).tdiv qty ∧
      cost - (cost * close).tdiv qty ≤ hi * (qty - close) + (k + 1 : Nat) := by
  obtain ⟨_, _⟩ := @split_bounds cost close qty (hclose.trans hlt)
  push_cast
  constructor
  · -- both sides times the quantity
    nlinarith
  · nlinarith

namespace Opened

variable {o : Opened} {leg : Leg} {qty cost : Int} {net price q : Int}

theorem add_same (h : 0 ≤ o.net * leg.signed) :
    o.add leg = { o with net := o.net + leg.signed, prices := o.prices ++ [leg.price] } :=
  if_pos h

theorem add_partial (h : o.net * leg.signed < 0) (hlt : leg.qty < o.net.natAbs) : o.add leg =
      { o with net := o.net + leg.signed, partialCloses := o.partialCloses + 1 } := by
  unfold add
  rw [if_neg (not_le.2 h), if_pos hlt]

theorem add_flip (h : o.net * leg.signed < 0) (hle : ¬ leg.qty < o.net.natAbs)
    (hne : o.net + leg.signed ≠ 0) :
    o.add leg = { net := o.net + leg.signed, prices := [leg.price] } := by
  unfold add
  rw [if_neg (not_le.2 h), if_neg hle, if_neg hne]

theorem Bounds.add_same (hq : 0 < q) (hnonneg : 0 ≤ qty)
    (hempty : qty = 0 → cost = 0) (h : 0 < qty → o.Bounds qty cost) :
    Bounds { o with net := net, prices := o.prices ++ [price] } (qty + q) (cost + price * q) := by
  intro lo hi hprices
  have hnew := hprices price (mem_append_right _ mem_cons_self)
  have hlow : lo * q ≤ price * q := mul_le_mul_of_nonneg_right hnew.1 hq.le
  have hhigh : price * q ≤ hi * q := mul_le_mul_of_nonneg_right hnew.2 hq.le
  rw [mul_add, mul_add]
  dsimp only
  rcases hnonneg.eq_or_lt with hzero | hpos
  · rw [← hzero]
    constructor <;> omega
  · obtain ⟨_, _⟩ := h hpos lo hi fun x hx => hprices x (mem_append_left _ hx)
    constructor <;> omega

theorem Bounds.part {net close : Int} (hclose : 0 < close) (hlt : close < qty)
    (h : o.Bounds qty cost) :
    Bounds { o with net := net, partialCloses := o.partialCloses + 1 } (qty - close)
      (cost - (cost * close).tdiv qty) := by
  intro lo hi hprices
  obtain ⟨hmin, hmax⟩ := h lo hi hprices
  exact partial_bounds hclose hlt hmin hmax

theorem Bounds.flip (hq : 0 < q) : Bounds { net := net, prices := [price] } q (price * q) := by
  intro lo hi hprices
  have hnew := hprices price mem_cons_self
  have hlow : lo * q ≤ price * q := mul_le_mul_of_nonneg_right hnew.1 hq.le
  have hhigh : price * q ≤ hi * q := mul_le_mul_of_nonneg_right hnew.2 hq.le
  constructor <;> omega

end Opened

theorem Opened.add_net (o : Opened) (leg : Leg) : (o.add leg).net = o.net + leg.signed := by
  unfold Opened.add
  dsimp only
  split_ifs with hsame hpart hzero
  · rfl
  · rfl
  · exact hzero.symm
  · rfl

theorem opened_net (legs : List Leg) : (opened legs).net = (legs.map Leg.signed).sum := by
  induction legs using List.reverseRecOn with
  | nil => rfl
  | append_singleton legs leg ih =>
    rw [opened_append, Opened.add_net, ih, map_append, sum_append, map_singleton, sum_singleton]

namespace Position

variable (p : Position) (side : Side) (price qty : Int)

theorem booked_own : (p.booked side price qty).qtyOn side =
      p.qtyOn side + (qty - p.closeQty side qty) ∧
    (p.booked side price qty).costOn side =
      p.costOn side + price * (qty - p.closeQty side qty) := by
  cases side <;> exact ⟨rfl, rfl⟩

theorem booked_opposite : (p.booked side price qty).qtyOn side.opposite =
      p.qtyOn side.opposite - p.closeQty side qty ∧
    (p.booked side price qty).costOn side.opposite =
      p.costOn side.opposite - p.closeCost side qty := by
  cases side <;> exact ⟨rfl, rfl⟩

theorem booked_net : (p.booked side price qty).longQty - (p.booked side price qty).shortQty =
    p.longQty - p.shortQty + (⟨side, price, qty⟩ : Leg).signed := by
  cases side <;> dsimp only [booked, Leg.signed] <;> ring

theorem booked_cash : (p.booked side price qty).realizedPnl +
      (p.booked side price qty).shortEntryCost - (p.booked side price qty).longEntryCost =
    p.realizedPnl + p.shortEntryCost - p.longEntryCost + (⟨side, price, qty⟩ : Leg).cash := by
  cases side <;> dsimp only [booked, closeProfit, Leg.cash] <;> ring

end Position

theorem net_mul_signed (p : Position) (leg : Leg) : (p.longQty - p.shortQty) * leg.signed =
    (p.qtyOn leg.side - p.qtyOn leg.side.opposite) * leg.qty := by
  obtain ⟨side, _, _⟩ := leg
  cases side <;> dsimp only [Leg.signed, qtyOn, opposite]
  ring

theorem net_add_signed (p : Position) (leg : Leg) : p.longQty - p.shortQty + leg.signed = 0 ↔
    p.qtyOn leg.side + leg.qty = p.qtyOn leg.side.opposite := by
  obtain ⟨side, _, _⟩ := leg
  cases side <;> dsimp only [Leg.signed, qtyOn, opposite] <;> omega

theorem forall_side {P : Side → Prop} (side : Side) (hown : P side) (hother : P side.opposite) :
    ∀ side', P side' := by
  intro side'
  cases side <;> cases side' <;> assumption

namespace Books

variable {legs : List Leg} {p : Position} {leg : Leg}

variable (h : Books legs p)
include h

theorem openedNet : (opened legs).net = p.longQty - p.shortQty :=
  (opened_net legs).trans h.net.symm

theorem shape_same (hqty : 0 < leg.qty) (hflat : p.qtyOn leg.side.opposite = 0) :
    let p' := p.booked leg.side leg.price leg.qty
    p'.qtyOn leg.side.opposite = 0 ∧ p'.costOn leg.side.opposite = 0 ∧ 0 < p'.qtyOn leg.side ∧
      (opened (legs ++ [leg])).Bounds (p'.qtyOn leg.side) (p'.costOn leg.side) := by
  have hnot : ¬ 0 < p.qtyOn leg.side.opposite := by omega
  obtain ⟨hown, hownCost⟩ := p.booked_own leg.side leg.price leg.qty
  obtain ⟨hopp, hoppCost⟩ := p.booked_opposite leg.side leg.price leg.qty
  rw [closeQty_of_not_pos hnot, sub_zero] at hown hownCost hopp
  rw [closeCost_of_not_pos hnot, sub_zero] at hoppCost
  have hnonneg := h.nonneg leg.side
  have hsame : 0 ≤ (opened legs).net * leg.signed := by
    rw [h.openedNet, net_mul_signed, hflat, sub_zero]
    exact mul_nonneg hnonneg hqty.le
  refine ⟨hopp.trans hflat, hoppCost.trans (h.empty _ hflat), ?_, ?_⟩
  · rw [hown]
    omega
  · rw [opened_append, Opened.add_same hsame, hown, hownCost]
    exact Opened.Bounds.add_same hqty hnonneg (h.empty _) (h.bounds _)

theorem shape_close (hqty : 0 < leg.qty) (hopen : 0 < p.qtyOn leg.side.opposite) :
    let p' := p.booked leg.side leg.price leg.qty
    (0 < p'.qtyOn leg.side.opposite ∧ p'.qtyOn leg.side = 0 ∧ p'.costOn leg.side = 0 ∧
      (opened (legs ++ [leg])).Bounds (p'.qtyOn leg.side.opposite) (p'.costOn leg.side.opposite)) ∨
    (p'.qtyOn leg.side.opposite = 0 ∧ p'.costOn leg.side.opposite = 0 ∧ 0 ≤ p'.qtyOn leg.side ∧
      (p'.qtyOn leg.side = 0 → p'.costOn leg.side = 0) ∧ (0 < p'.qtyOn leg.side →
        (opened (legs ++ [leg])).Bounds (p'.qtyOn leg.side) (p'.costOn leg.side))) := by
  have hzero : p.qtyOn leg.side = 0 := (h.oneSided leg.side).resolve_right hopen.ne'
  have hcost := h.empty _ hzero
  obtain ⟨hown, hownCost⟩ := p.booked_own leg.side leg.price leg.qty
  obtain ⟨hopp, hoppCost⟩ := p.booked_opposite leg.side leg.price leg.qty
  have hclose : p.closeQty leg.side leg.qty = min leg.qty (p.qtyOn leg.side.opposite) :=
    closeQty_of_pos hopen
  have hneg : (opened legs).net * leg.signed < 0 := by
    rw [h.openedNet, net_mul_signed]
    exact mul_neg_of_neg_of_pos (by omega) hqty
  have habs : ((opened legs).net.natAbs : Int) = p.qtyOn leg.side.opposite := by
    rw [h.openedNet]
    obtain ⟨side, _, _⟩ := leg
    cases side <;> dsimp only [qtyOn, opposite] at hzero hopen ⊢ <;> omega
  rw [hzero, zero_add, hclose] at hown
  rw [hcost, zero_add, hclose] at hownCost
  rw [hclose] at hopp
  unfold closeCost at hoppCost
  rw [hclose] at hoppCost
  rcases lt_or_ge leg.qty (p.qtyOn leg.side.opposite) with hlt | hge
  · rw [min_eq_left hlt.le] at hown hownCost hopp hoppCost
    rw [sub_self] at hown
    rw [sub_self, mul_zero] at hownCost
    refine .inl ⟨?_, hown, hownCost, ?_⟩
    · rw [hopp]
      omega
    · rw [opened_append, Opened.add_partial hneg (habs.symm ▸ hlt), hopp, hoppCost]
      exact (h.bounds _ hopen).part hqty hlt
  · rw [min_eq_right hge] at hown hownCost hopp hoppCost
    rw [sub_self] at hopp
    rw [Int.mul_tdiv_cancel _ hopen.ne', sub_self] at hoppCost
    have hle : ¬ leg.qty < (opened legs).net.natAbs := by omega
    refine .inr ⟨hopp, hoppCost, ?_, fun hflat => ?_, fun hpos => ?_⟩
    · rw [hown]
      omega
    · rw [hownCost, ← hown, hflat, mul_zero]
    · have hne : (opened legs).net + leg.signed ≠ 0 := by
        rw [h.openedNet, Ne, net_add_signed]
        rw [hown] at hpos
        omega
      rw [opened_append, Opened.add_flip hneg hle hne, hownCost, ← hown]
      exact Opened.Bounds.flip hpos

theorem booked (hqty : 0 < leg.qty) :
    Books (legs ++ [leg]) (p.booked leg.side leg.price leg.qty) := by
  have hnet : (p.booked leg.side leg.price leg.qty).longQty -
      (p.booked leg.side leg.price leg.qty).shortQty = ((legs ++ [leg]).map Leg.signed).sum := by
    rw [p.booked_net, h.net, map_append, sum_append, map_singleton, sum_singleton]
  have hcash : (p.booked leg.side leg.price leg.qty).realizedPnl +
      (p.booked leg.side leg.price leg.qty).shortEntryCost -
      (p.booked leg.side leg.price leg.qty).longEntryCost = ((legs ++ [leg]).map Leg.cash).sum := by
    rw [p.booked_cash, h.cash, map_append, sum_append, map_singleton, sum_singleton]
  rcases (h.nonneg leg.side.opposite).eq_or_lt with hflat | hopen
  · obtain ⟨hopp, hoppCost, hown, hbounds⟩ := h.shape_same hqty hflat.symm
    refine ⟨hnet, hcash, forall_side leg.side hown.le hopp.ge, ?_, ?_, ?_⟩
    · exact forall_side leg.side (.inr hopp) (.inl hopp)
    · exact forall_side leg.side (fun hzero => absurd hzero hown.ne') fun _ => hoppCost
    · exact forall_side leg.side (fun _ => hbounds) fun hpos => absurd hopp hpos.ne'
  · rcases h.shape_close hqty hopen with ⟨hopp, hown, hownCost, hbounds⟩ |
      ⟨hopp, hoppCost, hown, hempty, hbounds⟩
    · refine ⟨hnet, hcash, forall_side leg.side hown.ge hopp.le, ?_, ?_, ?_⟩
      · refine forall_side leg.side (.inl hown) (.inr ?_)
        cases hside : leg.side <;> simpa [hside] using hown
      · exact forall_side leg.side (fun _ => hownCost) fun hzero => absurd hzero hopp.ne'
      · exact forall_side leg.side (fun hpos => absurd hown hpos.ne') fun _ => hbounds
    · refine ⟨hnet, hcash, forall_side leg.side hown hopp.ge, ?_, ?_, ?_⟩
      · exact forall_side leg.side (.inr hopp) (.inl hopp)
      · exact forall_side leg.side hempty fun _ => hoppCost
      · exact forall_side leg.side hbounds fun hpos => absurd hopp hpos.ne'

end Books

end Rsx.Risk
