import Rsx.Lib.Run
import Rsx.Risk.Booking

/-!
# Positions are the sum of their fills

Over every sequence of fills a shard processes, the position of a user is the booked history of the
legs they took part in.
-/

namespace Rsx.Risk

open Function Book List Position

/-- The sides that a user takes in a fill; both in a trade with themselves. -/
def legsOf (userId symbolId : Nat) (fill : FillEvent) : List Leg :=
  if fill.symbolId = symbolId then
    (if fill.takerUserId = userId then [⟨fill.takerSide, fill.price, fill.qty⟩] else []) ++
      if fill.makerUserId = userId then [⟨fill.takerSide.opposite, fill.price, fill.qty⟩] else []
  else []

def Position.applyLegs (p : Position) (seq : Nat) (legs : List Leg) : Position :=
  legs.foldl (fun p leg => p.applyFill leg.side leg.price leg.qty seq) p

def Position.LegsFit (p : Position) (seq : Nat) : List Leg → Prop
  | [] => True
  | leg :: legs => p.NoOverflow leg.side leg.price leg.qty ∧
      (p.applyFill leg.side leg.price leg.qty seq).LegsFit seq legs

instance Position.decidableLegsFit (p : Position) (seq : Nat) :
    ∀ legs, Decidable (p.LegsFit seq legs)
  | [] => .isTrue trivial
  | leg :: legs =>
    have := decidableLegsFit (p.applyFill leg.side leg.price leg.qty seq) seq legs
    inferInstanceAs (Decidable (_ ∧ _))

variable {p : Position} {history legs : List Leg} {seq : Nat}

theorem Position.booked_fits {side : Side} {price qty : Int} (h : p.NoOverflow side price qty)
    (seq : Nat) : (p.applyFill side price qty seq).Fits := by
  rw [p.applyFill_eq h]
  exact h.2.2.2.2

theorem Books.applyFill {leg : Leg} (h : Books history p) (hqty : 0 < leg.qty)
    (hfit : p.NoOverflow leg.side leg.price leg.qty) :
    Books (history ++ [leg]) (p.applyFill leg.side leg.price leg.qty seq) := by
  rw [p.applyFill_eq hfit]
  obtain ⟨hnet, hcash, hnonneg, hone, hempty, hbounds⟩ := h.booked hqty
  refine ⟨hnet, hcash, ?_, ?_, ?_, ?_⟩
  · intro side
    cases side
    · exact hnonneg .buy
    · exact hnonneg .sell
  · intro side
    cases side
    · exact hone .buy
    · exact hone .sell
  · intro side
    cases side
    · exact hempty .buy
    · exact hempty .sell
  · intro side
    cases side
    · exact hbounds .buy
    · exact hbounds .sell

theorem Books.applyLegs (h : Books history p) (hp : p.Fits) (hqty : ∀ leg ∈ legs, 0 < leg.qty)
    (hfit : p.LegsFit seq legs) :
    Books (history ++ legs) (p.applyLegs seq legs) ∧ (p.applyLegs seq legs).Fits := by
  induction legs generalizing p history with
  | nil =>
    rw [append_nil]
    exact ⟨h, hp⟩
  | cons leg legs ih =>
    have hleg := hqty leg mem_cons_self
    obtain ⟨hbooks, hfits⟩ := ih (h.applyFill hleg hfit.1) (booked_fits hfit.1 seq)
      (fun leg' hmem => hqty leg' (mem_cons_of_mem _ hmem)) hfit.2
    rw [append_assoc] at hbooks
    exact ⟨hbooks, hfits⟩

namespace Shard

variable {s : Shard} {fill : FillEvent} {userId symbolId : Nat}

theorem position_bookLeg (s : Shard) (fill : FillEvent) (user : Nat) (side : Side) (fee : Int) :
    (s.bookLeg user fill side fee).position userId symbolId =
      if user = userId ∧ fill.symbolId = symbolId then
        (s.position userId symbolId).applyFill side fill.price fill.qty fill.seq
      else s.position userId symbolId := by
  unfold bookLeg position
  by_cases huser : user = userId
  · subst huser
    by_cases hsymbol : fill.symbolId = symbolId
    · subst hsymbol
      simp
    · have hne : symbolId ≠ fill.symbolId := fun h => hsymbol h.symm
      simp [hsymbol, update_of_ne hne]
  · have hne : userId ≠ user := fun h => huser h.symm
    simp [huser, update_of_ne hne]

theorem userInShard_applyLeg (s : Shard) (user : Nat) (side : Side) (fee : Int) :
    (s.applyLeg user fill side fee).userInShard userId = s.userInShard userId := by
  rw [applyLeg_eq]
  split <;> rfl

theorem position_applyLeg (s : Shard) (fill : FillEvent) (symbolId : Nat)
    (hshard : s.userInShard userId) (user : Nat) (side : Side) (fee : Int) :
    (s.applyLeg user fill side fee).position userId symbolId =
      (s.position userId symbolId).applyLegs fill.seq
        (if fill.symbolId = symbolId ∧ user = userId then [⟨side, fill.price, fill.qty⟩]
        else []) := by
  rw [applyLeg_eq]
  by_cases hleg : fill.symbolId = symbolId ∧ user = userId
  · rw [if_pos hleg, hleg.2, if_pos hshard, position_bookLeg, if_pos ⟨rfl, hleg.1⟩]
    rfl
  · split
    · rw [position_bookLeg, if_neg fun h => hleg ⟨h.2, h.1⟩]
      rfl
    · rfl

theorem position_bookFill (hshard : s.userInShard userId) :
    (s.bookFill fill).position userId symbolId =
      (s.position userId symbolId).applyLegs fill.seq (legsOf userId symbolId fill) := by
  have hmaker := position_applyLeg (s.applyLeg fill.takerUserId fill fill.takerSide
      (calculateFee fill.qty fill.price (s.takerFeeBps fill.symbolId))) fill symbolId
    ((userInShard_applyLeg s _ _ _).trans hshard) fill.makerUserId
    fill.takerSide.opposite (calculateFee fill.qty fill.price (s.makerFeeBps fill.symbolId))
  rw [position_applyLeg s fill symbolId hshard] at hmaker
  refine hmaker.trans ?_
  unfold legsOf applyLegs
  by_cases hsymbol : fill.symbolId = symbolId
  · simp only [hsymbol, true_and, if_true, foldl_append]
  · simp only [hsymbol, false_and, if_false, foldl_nil]

theorem position_processFill (hshard : s.userInShard userId) (hfresh : s.Fresh fill) :
    (s.processFill fill).position userId symbolId =
      (s.position userId symbolId).applyLegs fill.seq (legsOf userId symbolId fill) := by
  obtain ⟨_, _, _, _, hfill⟩ := processFill_of_fresh hfresh
  rw [hfill]
  exact position_bookFill hshard

theorem position_processFill_of_not (hshard : ¬ s.userInShard userId) (fill : FillEvent)
    (symbolId : Nat) :
    (s.processFill fill).position userId symbolId = s.position userId symbolId := by
  have hleg : ∀ (s : Shard), ¬ s.userInShard userId → ∀ user side fee,
      (s.applyLeg user fill side fee).position userId symbolId = s.position userId symbolId := by
    intro s hshard user side fee
    rw [applyLeg_eq]
    split_ifs with huser
    · rw [position_bookLeg, if_neg]
      rintro ⟨rfl, -⟩
      exact hshard huser
    · rfl
  by_cases hfresh : s.Fresh fill
  · obtain ⟨_, _, _, _, hfill⟩ := processFill_of_fresh hfresh
    rw [hfill]
    refine (hleg _ ?_ _ _ _).trans (hleg s hshard _ _ _)
    rwa [userInShard_applyLeg]
  · rw [processFill_of_not_fresh hfresh]

/-! ## Fees -/

def feesOf (s : Shard) (userId : Nat) (fill : FillEvent) : List Int :=
  (if fill.takerUserId = userId then
    [calculateFee fill.qty fill.price (s.takerFeeBps fill.symbolId)] else []) ++
    if fill.makerUserId = userId then
      [calculateFee fill.qty fill.price (s.makerFeeBps fill.symbolId)] else []

theorem account_bookLeg (s : Shard) (fill : FillEvent) (user : Nat) (side : Side) (fee : Int) :
    (s.bookLeg user fill side fee).account userId =
      if user = userId then (s.account userId).deductFee fee else s.account userId := by
  unfold bookLeg account
  by_cases huser : user = userId
  · subst huser
    simp
  · have hne : userId ≠ user := fun h => huser h.symm
    simp [huser, update_of_ne hne]

theorem account_applyLeg (s : Shard) (fill : FillEvent) (hshard : s.userInShard userId)
    (user : Nat) (side : Side) (fee : Int) :
    (s.applyLeg user fill side fee).account userId =
      (if user = userId then [fee] else []).foldl Account.deductFee (s.account userId) := by
  rw [applyLeg_eq]
  by_cases huser : user = userId
  · rw [if_pos huser, huser, if_pos hshard, account_bookLeg, if_pos rfl]
    rfl
  · split
    · rw [account_bookLeg, if_neg huser]
      rfl
    · rfl

theorem account_bookFill (hshard : s.userInShard userId) : (s.bookFill fill).account userId =
      (s.feesOf userId fill).foldl Account.deductFee (s.account userId) := by
  have hmaker := account_applyLeg (s.applyLeg fill.takerUserId fill fill.takerSide
      (calculateFee fill.qty fill.price (s.takerFeeBps fill.symbolId))) fill
    ((userInShard_applyLeg s _ _ _).trans hshard) fill.makerUserId
    fill.takerSide.opposite (calculateFee fill.qty fill.price (s.makerFeeBps fill.symbolId))
  rw [account_applyLeg s fill hshard] at hmaker
  refine hmaker.trans ?_
  rw [feesOf, foldl_append]

theorem account_processFill (hshard : s.userInShard userId) (hfresh : s.Fresh fill) :
    (s.processFill fill).account userId =
      (s.feesOf userId fill).foldl Account.deductFee (s.account userId) := by
  obtain ⟨_, _, _, _, hfill⟩ := processFill_of_fresh hfresh
  rw [hfill]
  exact account_bookFill hshard

/-! ## Runs -/

def applied : Shard → List FillEvent → List FillEvent
  | _, [] => []
  | s, fill :: fills =>
    if s.Fresh fill then fill :: applied (s.processFill fill) fills
    else applied (s.processFill fill) fills

/-- What a fill does to the position of a user, overflows excluded. -/
def FillFits (s : Shard) (userId symbolId : Nat) (fill : FillEvent) : Prop :=
  s.Fresh fill → (s.position userId symbolId).LegsFit fill.seq (legsOf userId symbolId fill)
  deriving Decidable

theorem userInShard_processFill (s : Shard) (fill : FillEvent) (userId : Nat) :
    (s.processFill fill).userInShard userId = s.userInShard userId := by
  obtain ⟨_, _, _, _, _, _, _, _, _, hfill⟩ := s.processFill_frame fill
  rw [hfill]
  rfl

theorem qty_pos_of_mem_legsOf (hqty : 0 < fill.qty) :
    ∀ leg ∈ legsOf userId symbolId fill, 0 < leg.qty := by
  intro leg hleg
  unfold legsOf at hleg
  split_ifs at hleg <;> simp at hleg
  all_goals rcases hleg with rfl | rfl
  all_goals exact hqty

theorem books_processFill {history : List Leg} (hshard : s.userInShard userId)
    (hqty : 0 < fill.qty) (hfits : s.FillFits userId symbolId fill)
    (hbooks : Books history (s.position userId symbolId)) (hp : (s.position userId symbolId).Fits) :
    Books (history ++ if s.Fresh fill then legsOf userId symbolId fill else [])
        ((s.processFill fill).position userId symbolId) ∧
      ((s.processFill fill).position userId symbolId).Fits := by
  by_cases hfresh : s.Fresh fill
  · rw [if_pos hfresh, position_processFill hshard hfresh]
    exact hbooks.applyLegs hp (qty_pos_of_mem_legsOf hqty) (hfits hfresh)
  · rw [if_neg hfresh, processFill_of_not_fresh hfresh, append_nil]
    exact ⟨hbooks, hp⟩

theorem books_run {history : List Leg} {fills : List FillEvent} (hshard : s.userInShard userId)
    (hqty : ∀ fill ∈ fills, 0 < fill.qty)
    (hfits : Along (fun s fill => some (s.processFill fill))
      (fun s fill => s.FillFits userId symbolId fill) s fills)
    (hbooks : Books history (s.position userId symbolId)) (hp : (s.position userId symbolId).Fits) :
    Books (history ++ (s.applied fills).flatMap (legsOf userId symbolId))
        ((fills.foldl Shard.processFill s).position userId symbolId) ∧
      ((fills.foldl Shard.processFill s).position userId symbolId).Fits := by
  induction fills generalizing s history with
  | nil =>
    rw [applied, flatMap_nil, append_nil]
    exact ⟨hbooks, hp⟩
  | cons fill fills ih =>
    obtain ⟨hbooks', hp'⟩ := books_processFill hshard (hqty fill mem_cons_self) hfits.1
      hbooks hp
    have hrest := ih ((userInShard_processFill s fill userId).trans hshard)
      (fun other hmem => hqty other (mem_cons_of_mem _ hmem)) (hfits.2 _ rfl) hbooks' hp'
    unfold applied
    by_cases hfresh : s.Fresh fill
    · rw [if_pos hfresh, flatMap_cons, ← append_assoc]
      rw [if_pos hfresh] at hrest
      exact hrest
    · rw [if_neg hfresh]
      rw [if_neg hfresh, append_nil] at hrest
      exact hrest

end Shard

/-! ## The identity -/

def notionalOn (side : Side) (legs : List Leg) : Int :=
  ((legs.filter (·.side = side)).map fun leg => leg.price * leg.qty).sum

theorem sum_cash (legs : List Leg) :
    (legs.map Leg.cash).sum = notionalOn .sell legs - notionalOn .buy legs := by
  induction legs with
  | nil => rfl
  | cons leg legs ih =>
    obtain ⟨side, _, _⟩ := leg
    rw [map_cons, sum_cons, ih]
    cases side with
    | buy | sell =>
      simp only [notionalOn, Leg.cash, filter_cons, decide_true, if_true, map_cons,
        sum_cons, reduceCtorEq, decide_false, Bool.false_eq_true, if_false]
      ring

theorem Position.fits_default (userId symbolId : Nat) :
    Fits { userId := userId, symbolId := symbolId } := by
  have hzero : FitsI64 0 := by decide
  exact ⟨hzero, hzero, hzero, hzero, hzero⟩

theorem Books.empty_history (userId symbolId : Nat) :
    Books [] { userId := userId, symbolId := symbolId } where
  net := rfl
  cash := rfl
  nonneg := by intro side; cases side <;> exact le_rfl
  oneSided := by intro side; cases side <;> exact .inl rfl
  empty := by intro side; cases side <;> exact fun _ => rfl
  bounds := by
    intro side hpos
    cases side <;> exact absurd hpos (lt_irrefl 0)

theorem Books.netQty_eq {legs : List Leg} {p : Position} (h : Books legs p) (hp : p.Fits) :
    p.netQty = p.longQty - p.shortQty := by
  apply wrap64_of_fits
  obtain ⟨_, _, -⟩ := hp
  have hlong0 : 0 ≤ p.longQty := h.nonneg .buy
  have hshort0 : 0 ≤ p.shortQty := h.nonneg .sell
  unfold FitsI64 at *
  unfold i64Min i64Max at *
  omega

/-- **Position accounting.**  After every sequence of fills that a shard without a position of the
user in the symbol processes without an overflow: the net quantity is the sum of the signed
quantities, one side is empty and has no cost, the cash identity is exact, and the open side costs
its quantity times a price between those of the fills that opened it, up to one unit for each
partial close. -/
theorem position_accounting (s : Shard) (userId symbolId : Nat) (fills : List FillEvent)
    (hshard : s.userInShard userId) (hnone : s.positions userId symbolId = none)
    (hqty : ∀ fill ∈ fills, 0 < fill.qty)
    (hfits : Along (fun s fill => some (s.processFill fill))
      (fun s fill => s.FillFits userId symbolId fill) s fills) :
    let p := (fills.foldl Shard.processFill s).position userId symbolId
    let legs := (s.applied fills).flatMap (legsOf userId symbolId)
    p.netQty = (legs.map Leg.signed).sum ∧ (p.longQty = 0 ∨ p.shortQty = 0) ∧
      (p.longQty = 0 → p.longEntryCost = 0) ∧ (p.shortQty = 0 → p.shortEntryCost = 0) ∧
      p.realizedPnl + p.shortEntryCost - p.longEntryCost =
        notionalOn .sell legs - notionalOn .buy legs ∧
      (0 < p.longQty → (opened legs).Bounds p.longQty p.longEntryCost) ∧
      (0 < p.shortQty → (opened legs).Bounds p.shortQty p.shortEntryCost) := by
  have hstart : s.position userId symbolId = { userId := userId, symbolId := symbolId } := by
    unfold Shard.position
    rw [hnone, Option.getD_none]
  obtain ⟨hbooks, hp⟩ := Shard.books_run hshard hqty hfits
    (hstart ▸ Books.empty_history userId symbolId) (hstart ▸ Position.fits_default userId symbolId)
  refine ⟨(hbooks.netQty_eq hp).trans hbooks.net, hbooks.oneSided .buy, hbooks.empty .buy,
    hbooks.empty .sell, hbooks.cash.trans (sum_cash _), hbooks.bounds .buy, hbooks.bounds .sell⟩

/-- A user buys 3 at 10, sells 1 at 12 and 4 at 7; a fill delivered again is not applied. -/
theorem position_accounting_flip :
    let s : Shard := { maxSymbols := 1, liquidation := ⟨[], [], 0, 0, 0, 1, 0⟩ }
    let fills : List FillEvent := [⟨1, 0, 7, 8, 10, 3, .buy, 0⟩, ⟨2, 0, 8, 7, 12, 1, .buy, 0⟩,
      ⟨2, 0, 8, 7, 12, 1, .buy, 0⟩, ⟨3, 0, 7, 8, 7, 4, .sell, 0⟩]
    let p := (fills.foldl Shard.processFill s).position 7 0
    s.userInShard 7 ∧ (∀ fill ∈ fills, 0 < fill.qty) ∧
      Along (fun s fill => some (s.processFill fill)) (fun s fill => s.FillFits 7 0 fill) s fills ∧
      p.netQty = -2 ∧ p.realizedPnl + p.shortEntryCost - p.longEntryCost = 10 := by
  intro s fills p
  have hshard : s.userInShard 7 := by decide
  have hqty : ∀ fill ∈ fills, 0 < fill.qty := by decide
  have hfits : Along (fun s fill => some (s.processFill fill))
      (fun s fill => s.FillFits 7 0 fill) s fills := by decide +kernel
  obtain ⟨hnet, -, -, -, hcash, -, -⟩ := position_accounting s 7 0 fills hshard rfl hqty hfits
  have hsum : ((((s.applied fills).flatMap (legsOf 7 0)).map Leg.signed).sum = -2 ∧
      notionalOn .sell ((s.applied fills).flatMap (legsOf 7 0)) -
        notionalOn .buy ((s.applied fills).flatMap (legsOf 7 0)) = 10) := by decide +kernel
  exact ⟨hshard, hqty, hfits, hnet.trans hsum.1, hcash.trans hsum.2⟩

end Rsx.Risk
