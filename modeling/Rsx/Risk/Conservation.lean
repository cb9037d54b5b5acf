import Rsx.Risk.Tick
import Rsx.Risk.ZeroSum

/-!
# Money

Fills take fees out of the accounts, a socialized loss moves money from an insurance fund to an
account, and funding moves it between accounts.  Nothing else changes the total of a shard that owns
all users.
-/

namespace Rsx.Risk

open Function Book List PersistEvent

/-! ## Funding payments -/

/-- The payments of a symbol before their rounding is settled. -/
def payments (netQtys : List Int) (mark rate : Int) : List Int :=
  netQtys.map fun netQty => calculatePayment netQty mark rate

def SettlementFits (netQtys : List Int) (mark rate : Int) : Prop :=
  FitsI64 ((payments netQtys mark rate).sum - calculatePayment netQtys.sum mark rate) ∧
    ∀ payment ∈ payments netQtys mark rate, FitsI64 (payment -
        ((payments netQtys mark rate).sum - calculatePayment netQtys.sum mark rate))
  deriving Decidable

theorem largerIdx_some (best : Option (Nat × Int)) (i : Nat) (netQty : Int) :
    ∃ j mag, largerIdx best i netQty = some (j, mag) ∧ (j = i ∨ ∃ b, best = some (j, b)) := by
  unfold largerIdx
  cases best with
  | none => exact ⟨i, _, rfl, .inl rfl⟩
  | some entry =>
    dsimp only
    split
    · exact ⟨entry.1, entry.2, rfl, .inr ⟨entry.2, rfl⟩⟩
    · exact ⟨i, _, rfl, .inl rfl⟩

theorem foldl_largerIdx {entries : List (Int × Nat)} {bound : Nat}
    (hentries : ∀ entry ∈ entries, entry.2 < bound) {best : Option (Nat × Int)}
    (hbest : ∀ j b, best = some (j, b) → j < bound) (hsome : best ≠ none ∨ entries ≠ []) :
    ∃ j b, entries.foldl (fun best (netQty, i) => largerIdx best i netQty) best = some (j, b) ∧
      j < bound := by
  induction entries generalizing best with
  | nil =>
    cases hcase : best with
    | none => exact absurd hcase (hsome.resolve_right fun h => h rfl)
    | some entry => exact ⟨entry.1, entry.2, rfl, hbest _ _ hcase⟩
  | cons entry entries ih =>
    obtain ⟨netQty, i⟩ := entry
    obtain ⟨_, _, hlarger, hj⟩ := largerIdx_some best i netQty
    refine ih (fun other hmem => hentries other (mem_cons_of_mem _ hmem)) ?_ (.inl ?_)
    · intro j' b' heq
      obtain ⟨rfl, -⟩ := Prod.mk.inj (Option.some.inj (hlarger.symm.trans heq))
      rcases hj with rfl | ⟨b, hb⟩
      · exact hentries _ mem_cons_self
      · exact hbest _ _ hb
    · exact fun hnone => Option.some_ne_none _ (hlarger.symm.trans hnone)

theorem largestIdx_some {netQtys : List Int} (h : netQtys ≠ []) :
    ∃ i, largestIdx netQtys = some i ∧ i < netQtys.length := by
  have hentries : ∀ entry ∈ netQtys.zipIdx, entry.2 < netQtys.length := by
    intro entry hmem
    have := snd_lt_of_mem_zipIdx hmem
    omega
  have hne : netQtys.zipIdx ≠ [] := by
    intro hnil
    exact h (zipIdx_eq_nil_iff.1 hnil)
  have hnone : ∀ (j : Nat) (b : Int), none = some (j, b) → j < netQtys.length := nofun
  obtain ⟨i, _, hfold, hi⟩ := foldl_largerIdx hentries hnone (.inr hne)
  refine ⟨i, ?_, hi⟩
  unfold largestIdx
  rw [hfold]
  rfl

theorem sum_modify {l : List Int} {i : Nat} (hi : i < l.length) {f : Int → Int} {d : Int}
    (hf : ∀ x ∈ l, f x = x - d) : (l.modify i f).sum = l.sum - d := by
  induction l generalizing i with
  | nil => exact absurd hi (Nat.not_lt_zero _)
  | cons x l ih =>
    cases i with
    | zero =>
      rw [modify_zero_cons, sum_cons, sum_cons, hf x mem_cons_self]
      ring
    | succ =>
      rw [modify_succ_cons, sum_cons, sum_cons,
        ih (Nat.lt_of_succ_lt_succ hi) fun y hy => hf y (mem_cons_of_mem _ hy)]
      ring

theorem settleSymbol_eq (netQtys : List Int) (mark rate : Int) : settleSymbol netQtys mark rate =
      if sat64 ((payments netQtys mark rate).sum - calculatePayment netQtys.sum mark rate) = 0 then
        payments netQtys mark rate
      else
        match largestIdx netQtys with
        | some i => (payments netQtys mark rate).modify i fun payment => sat64 (payment -
            sat64 ((payments netQtys mark rate).sum - calculatePayment netQtys.sum mark rate))
        | none => payments netQtys mark rate :=
  rfl

/-- **Funding.**  The payments of a symbol sum to the payment of the total position. -/
theorem sum_settleSymbol {netQtys : List Int} {mark rate : Int}
    (h : SettlementFits netQtys mark rate) :
    (settleSymbol netQtys mark rate).sum = calculatePayment netQtys.sum mark rate := by
  obtain ⟨hresidual, hpayment⟩ := h
  rw [settleSymbol_eq, sat64_of_fits hresidual]
  split_ifs with hzero
  · omega
  · have hne : netQtys ≠ [] := by
      rintro rfl
      exact hzero (by simp [payments, calculatePayment, wrap128, sat64, i64Min, i64Max])
    obtain ⟨i, hi, hlt⟩ := largestIdx_some hne
    rw [hi]
    have hlen : i < (payments netQtys mark rate).length := by
      rw [payments, length_map]
      exact hlt
    have hcorrect := sum_modify hlen fun payment hmem => sat64_of_fits (hpayment payment hmem)
    refine hcorrect.trans ?_
    ring

theorem length_settleSymbol (netQtys : List Int) (mark rate : Int) :
    (settleSymbol netQtys mark rate).length = netQtys.length := by
  have hlength : (payments netQtys mark rate).length = netQtys.length := length_map ..
  rw [settleSymbol_eq]
  split_ifs
  · exact hlength
  · split
    · rw [length_modify, hlength]
    · exact hlength

theorem calculatePayment_zero (mark rate : Int) : calculatePayment 0 mark rate = 0 := by
  unfold calculatePayment
  rw [zero_mul, zero_mul]
  decide

namespace Shard

variable {s s' s₁ s₂ : Shard} {users funds : Finset Nat} {fill : FillEvent}
  {sid id nowSecs : Nat} {loss : SocializedLoss}

/-! ## Totals -/

def fund (s : Shard) (symbolId : Nat) : InsuranceFund :=
  (s.insuranceFunds symbolId).getD ⟨symbolId, 0, 0⟩

def Covers (s : Shard) (users funds : Finset Nat) : Prop :=
  (∀ userId, s.accounts userId ≠ none → userId ∈ users) ∧
    ∀ symbolId, s.insuranceFunds symbolId ≠ none → symbolId ∈ funds

def total (s : Shard) (users funds : Finset Nat) : Int :=
  ∑ userId ∈ users, (s.account userId).collateral + ∑ symbolId ∈ funds, (s.fund symbolId).balance

def Grows (s s' : Shard) : Prop :=
  (∀ userId, s.accounts userId ≠ none → s'.accounts userId ≠ none) ∧
    ∀ symbolId, s.insuranceFunds symbolId ≠ none → s'.insuranceFunds symbolId ≠ none

theorem Grows.refl (s : Shard) : s.Grows s :=
  ⟨fun _ h => h, fun _ h => h⟩

theorem Grows.trans (h : s.Grows s₁) (h' : s₁.Grows s₂) : s.Grows s₂ :=
  ⟨fun userId hsome => h'.1 userId (h.1 userId hsome),
    fun symbolId hsome => h'.2 symbolId (h.2 symbolId hsome)⟩

theorem Covers.of_grows (h : s'.Covers users funds) (hgrows : s.Grows s') : s.Covers users funds :=
  ⟨fun userId hsome => h.1 userId (hgrows.1 userId hsome),
    fun symbolId hsome => h.2 symbolId (hgrows.2 symbolId hsome)⟩

def IsFinite (s : Shard) : Prop :=
  ∃ users funds, s.Covers users funds

/-- The payments of every settlement on the persist ring sum to zero. -/
def Settled (s : Shard) : Prop :=
  ∀ events ∈ s.persist, ∀ settlement, fundingSettlement settlement ∈ events →
    (settlement.payments.map FundingRecord.amount).sum = 0

/-- What an operation that takes `paid` out of the shard leaves. -/
structure Moves (s s' : Shard) (paid : Int) : Prop where
  balanced : s'.Balanced
  settled : s.Settled → s'.Settled
  grows : s.Grows s'
  finite : s.IsFinite → s'.IsFinite
  total : ∀ users funds, s'.Covers users funds → s'.total users funds = s.total users funds - paid

theorem Moves.refl (h : s.Balanced) : s.Moves s 0 :=
  ⟨h, id, .refl s, id, fun _ _ _ => (sub_zero _).symm⟩

theorem Moves.trans {paid paid' : Int} (h : s.Moves s₁ paid) (h' : s₁.Moves s₂ paid') :
    s.Moves s₂ (paid + paid') := by
  refine ⟨h'.balanced, h'.settled ∘ h.settled, h.grows.trans h'.grows, h'.finite ∘ h.finite,
    fun users funds hcover => ?_⟩
  rw [h'.total users funds hcover, h.total users funds (hcover.of_grows h'.grows), sub_sub]

theorem Settled.pushAll {events : List PersistEvent} (h : s.Settled)
    (hevents : ∀ settlement, fundingSettlement settlement ∈ events →
      (settlement.payments.map FundingRecord.amount).sum = 0) : (s.pushAll events).Settled := by
  intro ring hring settlement hmem
  obtain ⟨ring', hring', rfl⟩ := Option.mem_map.1 hring
  rcases mem_append.1 hmem with hold | hnew
  · exact h ring' hring' settlement hold
  · exact hevents settlement hnew

/-! ## Fills -/

def fillFees (s : Shard) (fill : FillEvent) : Int :=
  if s.Fresh fill then
    calculateFee fill.qty fill.price (s.takerFeeBps fill.symbolId) +
      calculateFee fill.qty fill.price (s.makerFeeBps fill.symbolId)
  else 0

def FillSafe (s : Shard) (fill : FillEvent) : Prop :=
  0 < fill.qty ∧ 0 ≤ fill.price ∧ s.PartiesFit fill ∧
    s.FeesFit fill.takerUserId fill ∧ s.FeesFit fill.makerUserId fill
  deriving Decidable

theorem sum_feesOf (s : Shard) (htaker : fill.takerUserId ∈ users)
    (hmaker : fill.makerUserId ∈ users) :
    ∑ userId ∈ users, (s.feesOf userId fill).sum =
      calculateFee fill.qty fill.price (s.takerFeeBps fill.symbolId) +
        calculateFee fill.qty fill.price (s.makerFeeBps fill.symbolId) := by
  have hsplit : ∀ userId, (s.feesOf userId fill).sum = (if fill.takerUserId = userId then
        calculateFee fill.qty fill.price (s.takerFeeBps fill.symbolId) else 0) +
      if fill.makerUserId = userId then
        calculateFee fill.qty fill.price (s.makerFeeBps fill.symbolId) else 0 := by
    intro userId
    rw [feesOf, sum_append]
    congr 1 <;> split <;> simp
  simp only [hsplit, Finset.sum_add_distrib, Finset.sum_ite_eq, if_pos htaker, if_pos hmaker]

theorem accounts_applyLeg (s : Shard) (user : Nat) (side : Side) (fee : Int) (userId : Nat) :
    (s.applyLeg user fill side fee).accounts userId =
      if s.userInShard user ∧ user = userId then some ((s.account userId).deductFee fee)
      else s.accounts userId := by
  rw [applyLeg_eq]
  by_cases hshard : s.userInShard user
  · rw [if_pos hshard]
    by_cases huser : user = userId
    · subst huser
      rw [if_pos ⟨hshard, rfl⟩]
      exact update_self ..
    · rw [if_neg fun h => huser h.2]
      exact update_of_ne (fun h => huser h.symm) ..
  · rw [if_neg hshard, if_neg fun h => hshard h.1]

theorem accounts_processFill (howns : ∀ userId, s.userInShard userId) (hfresh : s.Fresh fill)
    (userId : Nat) : (s.processFill fill).accounts userId ≠ none ↔
      s.accounts userId ≠ none ∨ fill.takerUserId = userId ∨ fill.makerUserId = userId := by
  obtain ⟨_, _, _, _, hfill⟩ := processFill_of_fresh hfresh
  have hbook : (s.processFill fill).accounts userId = (s.bookFill fill).accounts userId := by
    rw [hfill]
    rfl
  have hmaker : (s.applyLeg fill.takerUserId fill fill.takerSide
      (calculateFee fill.qty fill.price (s.takerFeeBps fill.symbolId))).userInShard
        fill.makerUserId := by
    rw [userInShard_applyLeg]
    exact howns _
  rw [hbook]
  unfold bookFill
  rw [accounts_applyLeg, accounts_applyLeg]
  split_ifs with h₁ h₂ <;> simp_all

theorem not_mem_fillEvents (s : Shard) (fill : FillEvent) (settlement : FundingSettlement) :
    fundingSettlement settlement ∉ s.fillEvents fill := by
  obtain ⟨events, heq, hevents⟩ := s.exists_fillEvents fill
  rw [heq, mem_append, mem_singleton]
  rintro (hmem | hmem)
  · rcases hevents _ hmem with ⟨_, h⟩ | ⟨_, h⟩ | ⟨_, h⟩ <;> cases h
  · cases hmem

theorem moves_processFill (h : s.Balanced) (hsafe : s.FillSafe fill) :
    s.Moves (s.processFill fill) (s.fillFees fill) := by
  obtain ⟨hqty, hprice, hfits, htakerFees, hmakerFees⟩ := hsafe
  unfold fillFees
  by_cases hfresh : s.Fresh fill
  · rw [if_pos hfresh]
    have haccounts := accounts_processFill h.owns hfresh
    have hfunds : (s.processFill fill).insuranceFunds = s.insuranceFunds := by
      obtain ⟨_, _, _, _, _, _, _, _, _, hframe⟩ := s.processFill_frame fill
      rw [hframe]
    refine ⟨h.processFill hqty hprice hfits, fun hsettled => ?_, ⟨fun userId hsome => ?_, ?_⟩,
      ?_, ?_⟩
    · obtain ⟨prices, dirty, liquidation, cancels, hfill⟩ := processFill_of_fresh hfresh
      obtain ⟨_, _, _, hbook⟩ := s.bookFill_frame fill
      have hbefore :
          ((s.bookFill fill).withLiquidation prices dirty liquidation cancels).Settled := by
        rw [hbook]
        exact hsettled
      rw [hfill]
      exact hbefore.pushAll fun settlement hmem => absurd hmem (not_mem_fillEvents _ _ _)
    · exact (haccounts userId).2 (.inl hsome)
    · intro symbolId hsome
      rw [hfunds]
      exact hsome
    · rintro ⟨users, funds, hcover⟩
      refine ⟨insert fill.takerUserId (insert fill.makerUserId users), funds,
        fun userId hsome => ?_, hfunds ▸ hcover.2⟩
      rw [Finset.mem_insert, Finset.mem_insert]
      rcases (haccounts userId).1 hsome with hbefore | rfl | rfl
      · exact .inr (.inr (hcover.1 userId hbefore))
      · exact .inl rfl
      · exact .inr (.inl rfl)
    · intro users funds hcover
      have htaker := hcover.1 _ ((haccounts fill.takerUserId).2 (.inr (.inl rfl)))
      have hmaker := hcover.1 _ ((haccounts fill.makerUserId).2 (.inr (.inr rfl)))
      have hfees : ∀ userId, s.FeesFit userId fill →
        ((s.processFill fill).account userId).collateral =
          (s.account userId).collateral - (s.feesOf userId fill).sum :=
        fun userId hfit => collateral_processFill (h.owns userId) hfresh hfit
      have hall : ∀ userId ∈ users, ((s.processFill fill).account userId).collateral =
          (s.account userId).collateral - (s.feesOf userId fill).sum := by
        intro userId _
        by_cases htakes : fill.takerUserId = userId
        · exact hfees userId (htakes ▸ htakerFees)
        · by_cases hmakes : fill.makerUserId = userId
          · exact hfees userId (hmakes ▸ hmakerFees)
          · have hnone : s.feesOf userId fill = [] := by
              rw [feesOf, if_neg htakes, if_neg hmakes, append_nil]
            rw [account_processFill (h.owns userId) hfresh, hnone, foldl_nil, sum_nil, sub_zero]
      have hbalance : ∀ symbolId, (s.processFill fill).fund symbolId = s.fund symbolId := by
        intro symbolId
        rw [fund, hfunds]
        rfl
      unfold total
      rw [Finset.sum_congr rfl hall, Finset.sum_sub_distrib, s.sum_feesOf htaker hmaker]
      simp only [hbalance]
      ring
  · rw [if_neg hfresh, processFill_of_not_fresh hfresh]
    exact .refl h

/-! ## Funding -/

def fundingAmounts (s : Shard) (sid : Nat) : List Int :=
  settleSymbol ((s.exposed sid).map Prod.snd) (s.markPrices sid) (s.fundingRate sid)

def fundingCharges (s : Shard) (sid : Nat) : List (Nat × Int) :=
  ((s.exposed sid).map Prod.fst).zip (s.fundingAmounts sid)

def charge (s : Shard) (charges : List (Nat × Int)) : Shard :=
  charges.foldl (fun s (userId, amount) => s.payFunding userId amount) s

theorem payFunding_eq (s : Shard) (userId : Nat) (amount : Int) :
    s.payFunding userId amount = { s with
      accounts := update s.accounts userId
        (some ((s.account userId).deductFee amount)) } := by
  unfold payFunding
  rw [ensureAccount_eq]
  dsimp only
  rw [update_self]
  dsimp only [setAccount]
  rw [update_idem]

theorem charge_frame (s : Shard) (charges : List (Nat × Int)) :
    ∃ accounts, s.charge charges = { s with accounts := accounts } := by
  induction charges generalizing s with
  | nil => exact ⟨s.accounts, rfl⟩
  | cons entry charges ih =>
    obtain ⟨accounts, hrest⟩ := ih (s.payFunding entry.1 entry.2)
    refine ⟨accounts, hrest.trans ?_⟩
    rw [payFunding_eq]

def ChargesFit : Shard → List (Nat × Int) → Prop
  | _, [] => True
  | s, (userId, amount) :: charges =>
    FitsI64 ((s.account userId).collateral - amount) ∧
      ChargesFit (s.payFunding userId amount) charges

instance decidableChargesFit : ∀ s charges, Decidable (ChargesFit s charges)
  | _, [] => .isTrue trivial
  | s, (userId, amount) :: charges =>
    have := decidableChargesFit (s.payFunding userId amount) charges
    inferInstanceAs (Decidable (_ ∧ _))

theorem account_payFunding (s : Shard) (userId other : Nat) (amount : Int) :
    (s.payFunding userId amount).account other =
      if other = userId then (s.account userId).deductFee amount else s.account other := by
  rw [payFunding_eq]
  exact getD_update ..

theorem accounts_charge (s : Shard) (charges : List (Nat × Int)) (userId : Nat) :
    (s.charge charges).accounts userId ≠ none ↔
      s.accounts userId ≠ none ∨ userId ∈ charges.map Prod.fst := by
  induction charges generalizing s with
  | nil => simp [charge]
  | cons entry charges ih =>
    have hpaid : (s.payFunding entry.1 entry.2).accounts userId ≠ none ↔
        userId = entry.1 ∨ s.accounts userId ≠ none := by
      rw [payFunding_eq]
      exact update_ne_none_iff
    refine (ih (s.payFunding entry.1 entry.2)).trans ?_
    rw [hpaid, map_cons, mem_cons, or_assoc, or_left_comm]

theorem grows_charge (s : Shard) (charges : List (Nat × Int)) : s.Grows (s.charge charges) := by
  refine ⟨fun userId hsome => (s.accounts_charge charges userId).2 (.inl hsome), ?_⟩
  obtain ⟨_, hframe⟩ := s.charge_frame charges
  rw [hframe]
  exact fun _ hsome => hsome

theorem sum_charge {charges : List (Nat × Int)} (hfit : s.ChargesFit charges)
    (husers : ∀ entry ∈ charges, entry.1 ∈ users) :
    ∑ userId ∈ users, ((s.charge charges).account userId).collateral =
      ∑ userId ∈ users, (s.account userId).collateral - (charges.map Prod.snd).sum := by
  induction charges generalizing s with
  | nil => exact (sub_zero _).symm
  | cons entry charges ih =>
    have hrest := ih hfit.2 fun other hmem => husers other (mem_cons_of_mem _ hmem)
    have hother : ∀ other ∈ users, other ≠ entry.1 →
        ((s.payFunding entry.1 entry.2).account other).collateral =
          (s.account other).collateral := by
      intro other _ hne
      rw [account_payFunding, if_neg hne]
    have hstep := sum_sub_of_change (husers entry mem_cons_self) hother
    have hself : ((s.payFunding entry.1 entry.2).account entry.1).collateral =
        (s.account entry.1).collateral - entry.2 := by
      rw [account_payFunding, if_pos rfl]
      exact sat64_of_fits hfit.1
    rw [map_cons, sum_cons]
    refine hrest.trans ?_
    omega

theorem map_snd_fundingCharges (s : Shard) (sid : Nat) :
    (s.fundingCharges sid).map Prod.snd = s.fundingAmounts sid := by
  unfold fundingCharges
  rw [map_snd_zip]
  rw [fundingAmounts, length_settleSymbol, length_map, length_map]

def fundingWaits (s : Shard) (sid : Nat) : Prop :=
  ((s.exposed sid).any fun entry => entry.2 ≠ 0) ∧
    ¬ (decide (s.markPrices sid ≠ 0 ∧ (s.indexPrices sid).price ≠ 0)) = true
  deriving Decidable

def settlementOf (s : Shard) (sid id nowSecs : Nat) : FundingSettlement where
  symbolId := sid
  intervalId := id
  payments := (s.fundingCharges sid).map fun (userId, amount) =>
    ⟨userId, sid, id, amount, s.fundingRate sid, nowSecs⟩
  accounts := (s.fundingCharges sid).filterMap fun (userId, _) =>
    (s.charge (s.fundingCharges sid)).accounts userId

theorem trySettleInterval_eq (s : Shard) (sid id nowSecs : Nat) :
    s.trySettleInterval sid id nowSecs =
      if s.fundingWaits sid then none
      else some { (s.charge (s.fundingCharges sid)).pushAll
          [.fundingSettlement (s.settlementOf sid id nowSecs)] with
        fundingSettled := update s.fundingSettled sid (some id) } := by
  obtain ⟨_, hcharge⟩ := s.charge_frame (s.fundingCharges sid)
  have hsettled : (s.charge (s.fundingCharges sid)).fundingSettled = s.fundingSettled := by
    rw [hcharge]
  rw [← hsettled]
  rfl

theorem trySettleInterval_some (h : s.trySettleInterval sid id nowSecs = some s') :
    s' = { (s.charge (s.fundingCharges sid)).pushAll
        [.fundingSettlement (s.settlementOf sid id nowSecs)] with
      fundingSettled := update s.fundingSettled sid (some id) } := by
  rw [trySettleInterval_eq] at h
  split_ifs at h
  exact (Option.some.inj h).symm

theorem sum_exposed (h : s.Balanced) (sid : Nat) : ((s.exposed sid).map Prod.snd).sum = 0 := by
  have hperm : (s.exposed sid).Perm ((s.exposure sid).filterMap fun userId =>
      (s.positions userId sid).map fun position => (userId, position.netQty)) :=
    perm_insertionSort _ _
  rw [(hperm.map Prod.snd).sum_eq]
  have hentry : ∀ userId ∈ s.exposure sid, ((s.positions userId sid).map fun position =>
      (userId, position.netQty)) = some (userId, s.net userId sid) := by
    intro userId hmem
    have hopen := ((h.indexed sid).2 userId).1 hmem
    have hnet := (h.sound.sound userId sid).netQty_eq (h.sound.fits userId sid)
    unfold net
    unfold position at hopen hnet ⊢
    cases hposition : s.positions userId sid with
    | none =>
      rw [hposition] at hopen
      exact absurd rfl hopen
    | some =>
      rw [hposition, Option.getD_some] at hnet
      rw [Option.map_some, hnet, Option.getD_some]
  have hlist : ((s.exposure sid).filterMap fun userId =>
      (s.positions userId sid).map fun position => (userId, position.netQty)) =
        (s.exposure sid).map fun userId => (userId, s.net userId sid) := by
    rw [filterMap_congr hentry]
    exact congrFun (filterMap_eq_map (f := fun userId => (userId, s.net userId sid))) _
  rw [hlist, map_map]
  have hsum := h.zeroSum sid
  rw [sum_toFinset _ (h.indexed sid).1] at hsum
  exact hsum

def IntervalFits (s : Shard) (sid : Nat) : Prop :=
  SettlementFits ((s.exposed sid).map Prod.snd) (s.markPrices sid) (s.fundingRate sid) ∧
    s.ChargesFit (s.fundingCharges sid)
  deriving Decidable

theorem sum_fundingAmounts (h : s.Balanced) (hfit : s.IntervalFits sid) :
    (s.fundingAmounts sid).sum = 0 := by
  rw [fundingAmounts, sum_settleSymbol hfit.1, sum_exposed h, calculatePayment_zero]

theorem moves_trySettleInterval (h : s.Balanced)
    (hfit : s.IntervalFits sid) (hsettle : s.trySettleInterval sid id nowSecs = some s') :
    s.Moves s' 0 := by
  obtain rfl := trySettleInterval_some hsettle
  obtain ⟨_, hframe⟩ := s.charge_frame (s.fundingCharges sid)
  have hgrows := s.grows_charge (s.fundingCharges sid)
  have hzero := sum_fundingAmounts h hfit
  have hfunds : (s.charge (s.fundingCharges sid)).insuranceFunds = s.insuranceFunds := by
    rw [hframe]
  refine ⟨?_, fun hsettled => ?_, hgrows, ?_, fun users funds hcover => ?_⟩
  · rw [hframe]
    exact h.congr rfl rfl rfl rfl
  · have hbefore : (s.charge (s.fundingCharges sid)).Settled := by
      rw [hframe]
      exact hsettled
    refine hbefore.pushAll fun other hmem => ?_
    rw [mem_singleton] at hmem
    obtain rfl := fundingSettlement.inj hmem
    rw [settlementOf, map_map]
    exact (congrArg sum (s.map_snd_fundingCharges sid)).trans hzero
  · rintro ⟨users, funds, hcover⟩
    refine ⟨users ∪ ((s.fundingCharges sid).map Prod.fst).toFinset, funds, fun userId hsome => ?_,
      fun symbolId hsome => hcover.2 symbolId (hfunds ▸ hsome)⟩
    rcases (s.accounts_charge _ userId).1 hsome with hbefore | hcharged
    · exact Finset.mem_union_left _ (hcover.1 userId hbefore)
    · exact Finset.mem_union_right _ (mem_toFinset.2 hcharged)
  · have hcharged : ∀ entry ∈ s.fundingCharges sid, entry.1 ∈ users := fun entry hmem =>
      hcover.1 _ ((s.accounts_charge _ entry.1).2 (.inr (mem_map_of_mem hmem)))
    have hsum := sum_charge hfit.2 hcharged
    rw [map_snd_fundingCharges, hzero] at hsum
    unfold total fund pushAll
    dsimp only
    rw [hfunds, sub_zero]
    exact congrArg (· + _) (hsum.trans (sub_zero _))

def IntervalsFit (sid nowSecs : Nat) : Nat → Nat → Shard → Prop
  | 0, _, _ => True
  | count + 1, id, s =>
    match s.trySettleInterval sid id nowSecs with
    | some s' => s.IntervalFits sid ∧ IntervalsFit sid nowSecs count (id + 1) s'
    | none => True

instance decidableIntervalsFit (sid nowSecs : Nat) :
    ∀ count id s, Decidable (IntervalsFit sid nowSecs count id s)
  | 0, _, _ => .isTrue trivial
  | count + 1, id, s =>
    match h : s.trySettleInterval sid id nowSecs with
    | some s' =>
      have := decidableIntervalsFit sid nowSecs count (id + 1) s'
      decidable_of_iff (s.IntervalFits sid ∧ IntervalsFit sid nowSecs count (id + 1) s')
        (by rw [IntervalsFit, h])
    | none => .isTrue (by rw [IntervalsFit, h]; trivial)

theorem moves_settleIntervals {count : Nat} (h : s.Balanced)
    (hfit : IntervalsFit sid nowSecs count id s) :
    s.Moves (settleIntervals sid nowSecs count id s) 0 := by
  induction count generalizing s id with
  | zero => exact .refl h
  | succ count ih =>
    unfold settleIntervals
    unfold IntervalsFit at hfit
    cases hsettle : s.trySettleInterval sid id nowSecs with
    | none => exact .refl h
    | some =>
      rw [hsettle] at hfit
      have hfirst := moves_trySettleInterval h hfit.1 hsettle
      exact hfirst.trans (ih hfirst.balanced hfit.2)

/-- The settlements of a symbol in `maybe_settle_funding` do not saturate. -/
def SymbolFundingFits (nowSecs : Nat) (s : Shard) (sid : Nat) : Prop :=
  let currentId := intervalId nowSecs (s.fundingIntervalSecs sid)
  let firstId := match s.fundingSettled sid with
    | some lastId => lastId + 1
    | none => currentId
  (s.margin.symbolParams sid).isSome → IntervalsFit sid nowSecs (currentId + 1 - firstId) firstId s
  deriving Decidable

theorem moves_settleSymbolFunding (h : s.Balanced)
    (hfit : SymbolFundingFits nowSecs s sid) : s.Moves (settleSymbolFunding nowSecs s sid) 0 := by
  unfold settleSymbolFunding
  unfold SymbolFundingFits at hfit
  cases hparams : s.margin.symbolParams sid with
  | none => exact .refl h
  | some =>
    rw [hparams] at hfit
    exact moves_settleIntervals h (hfit rfl)

/-- No settlement of `maybe_settle_funding` saturates. -/
def FundingFits (s : Shard) (nowSecs : Nat) : Prop :=
  nowSecs ≠ s.fundingCheckedSecs →
    Along (fun s sid => some (settleSymbolFunding nowSecs s sid)) (SymbolFundingFits nowSecs)
      { s with fundingCheckedSecs := nowSecs } (List.range s.maxSymbols)
  deriving Decidable

theorem moves_foldl {α : Type} {step : Shard → α → Shard} {ok : Shard → α → Prop}
    (hstep : ∀ {s a}, s.Balanced → ok s a → s.Moves (step s a) 0) {actions : List α}
    (h : s.Balanced) (hok : Along (fun s a => some (step s a)) ok s actions) :
    s.Moves (actions.foldl step s) 0 := by
  induction actions generalizing s with
  | nil => exact .refl h
  | cons a actions ih =>
    have hfirst := hstep h hok.1
    exact hfirst.trans (ih hfirst.balanced (hok.2 _ rfl))

theorem moves_maybeSettleFunding (h : s.Balanced) (hfit : s.FundingFits nowSecs) :
    s.Moves (s.maybeSettleFunding nowSecs) 0 := by
  unfold maybeSettleFunding
  by_cases hchecked : nowSecs = s.fundingCheckedSecs
  · rw [if_pos hchecked]
    exact .refl h
  · rw [if_neg hchecked]
    have hstart : s.Moves { s with fundingCheckedSecs := nowSecs } 0 :=
      ⟨h.congr rfl rfl rfl rfl, id, ⟨fun _ hsome => hsome, fun _ hsome => hsome⟩, id,
        fun _ _ _ => (sub_zero _).symm⟩
    exact hstart.trans (moves_foldl moves_settleSymbolFunding hstart.balanced (hfit hchecked))

/-! ## Socialized losses -/

def LossFits (s : Shard) (loss : SocializedLoss) : Prop :=
  ∀ account ∈ s.accounts loss.userId,
    let state := s.marginState loss.userId account
    FitsI64 (account.collateral + state.unrealizedPnl) ∧
      (state.equity < 0 → FitsI64 (-state.equity) ∧ FitsI64 (account.collateral - state.equity) ∧
        FitsI64 ((s.fund loss.symbolId).balance + state.equity))
  deriving Decidable

def moveDeficit (s : Shard) (loss : SocializedLoss) (account : Account) (deficit : Int) : Shard :=
  { s with
    accounts := update s.accounts loss.userId (some (account.credit deficit))
    insuranceFunds := update s.insuranceFunds loss.symbolId
      (some ((s.fund loss.symbolId).deduct deficit)) }

def lossEvents (s : Shard) (loss : SocializedLoss) (account : Account) (deficit : Int)
    (nowNs : Nat) : List PersistEvent :=
  [.account (account.credit deficit),
    .liquidation ⟨loss.userId, loss.symbolId, loss.round, loss.side, loss.price, loss.qty, 0, 3,
      nowNs⟩,
    .insuranceFund ((s.fund loss.symbolId).deduct deficit)]

theorem processSocializedLoss_cases (s : Shard) (loss : SocializedLoss) (nowNs : Nat) :
    s.processSocializedLoss loss nowNs = (s, none) ∨
      ∃ account notice, s.accounts loss.userId = some account ∧
        (s.marginState loss.userId account).equity < 0 ∧
        s.processSocializedLoss loss nowNs =
          ((s.moveDeficit loss account
            (sat64 (-(s.marginState loss.userId account).equity))).pushAll
            (s.lossEvents loss account (sat64 (-(s.marginState loss.userId account).equity)) nowNs),
          some notice) := by
  unfold processSocializedLoss
  cases haccount : s.accounts loss.userId with
  | none => exact .inl rfl
  | some account =>
    dsimp only
    by_cases hequity : 0 ≤ (s.marginState loss.userId account).equity
    · rw [if_pos hequity]
      exact .inl rfl
    · rw [if_neg hequity]
      refine .inr ⟨account, .liquidation loss.userId loss.symbolId 3 loss.round loss.side loss.qty
        loss.price 0, rfl, not_le.1 hequity, ?_⟩
      rw [pushPersist_eq, pushPersist_eq, pushPersist_eq, pushAll_append, pushAll_append]
      rfl

theorem account_moveDeficit (s : Shard) (loss : SocializedLoss) (account : Account)
    (deficit : Int) (userId : Nat) : (s.moveDeficit loss account deficit).account userId =
      if userId = loss.userId then account.credit deficit else s.account userId :=
  getD_update ..

theorem fund_moveDeficit (s : Shard) (loss : SocializedLoss) (account : Account)
    (deficit : Int) (symbolId : Nat) : (s.moveDeficit loss account deficit).fund symbolId =
      if symbolId = loss.symbolId then (s.fund loss.symbolId).deduct deficit
      else s.fund symbolId :=
  getD_update ..

theorem grows_moveDeficit (s : Shard) (loss : SocializedLoss) (account : Account) (deficit : Int) :
    s.Grows (s.moveDeficit loss account deficit) ∧
      (s.moveDeficit loss account deficit).accounts loss.userId ≠ none ∧
      (s.moveDeficit loss account deficit).insuranceFunds loss.symbolId ≠ none :=
  ⟨⟨fun _ hsome => update_ne_none_iff.2 (.inr hsome),
      fun _ hsome => update_ne_none_iff.2 (.inr hsome)⟩,
    update_ne_none_iff.2 (.inl rfl), update_ne_none_iff.2 (.inl rfl)⟩

theorem moves_processSocializedLoss (h : s.Balanced)
    (hfit : s.LossFits loss) (nowNs : Nat) : s.Moves (s.processSocializedLoss loss nowNs).1 0 := by
  rcases s.processSocializedLoss_cases loss nowNs with hnone |
    ⟨account, notice, haccount, hequity, hloss⟩
  · rw [hnone]
    exact .refl h
  · obtain ⟨_, hfits⟩ := hfit account haccount
    obtain ⟨hdeficit, hcredit, hdebit⟩ := hfits hequity
    obtain ⟨hgrows, huser, hsymbol⟩ := s.grows_moveDeficit loss account
      (sat64 (-(s.marginState loss.userId account).equity))
    rw [sat64_of_fits hdeficit] at hloss hgrows huser hsymbol
    generalize (s.marginState loss.userId account).equity = equity at *
    rw [hloss]
    refine ⟨h.congr rfl rfl rfl rfl, fun hsettled => ?_, hgrows, ?_, fun users funds hcover => ?_⟩
    · have hbefore : (s.moveDeficit loss account (-equity)).Settled := hsettled
      refine hbefore.pushAll fun settlement hmem => ?_
      simp [lossEvents] at hmem
    · rintro ⟨users, funds, hcover⟩
      refine ⟨insert loss.userId users, insert loss.symbolId funds, fun userId hsome => ?_,
        fun symbolId hsome => ?_⟩
      · exact Finset.mem_insert.2 ((update_ne_none_iff.1 hsome).imp_right (hcover.1 userId))
      · exact Finset.mem_insert.2 ((update_ne_none_iff.1 hsome).imp_right (hcover.2 symbolId))
    · have haccounts := sum_sub_of_change (hcover.1 _ huser)
        fun (userId : Nat) _ (hne : userId ≠ loss.userId) => congrArg Account.collateral
          ((s.account_moveDeficit loss account (-equity) userId).trans (if_neg hne))
      have hfunds := sum_sub_of_change (hcover.2 _ hsymbol)
        fun (symbolId : Nat) _ (hne : symbolId ≠ loss.symbolId) => congrArg InsuranceFund.balance
          ((s.fund_moveDeficit loss account (-equity) symbolId).trans (if_neg hne))
      have hcollateral : (account.credit (-equity)).collateral = account.collateral - equity :=
        sat64_of_fits hcredit
      have hbalance : ((s.fund loss.symbolId).deduct (-equity)).balance =
          (s.fund loss.symbolId).balance + equity := by
        unfold InsuranceFund.deduct
        rw [sub_neg_eq_add]
        exact sat64_of_fits hdebit
      have hbefore : (s.account loss.userId).collateral = account.collateral := by
        rw [Shard.account, haccount, Option.getD_some]
      rw [account_moveDeficit, if_pos rfl] at haccounts
      rw [fund_moveDeficit, if_pos rfl] at hfunds
      have htotal : (s.moveDeficit loss account (-equity)).total users funds =
          s.total users funds - 0 := by
        unfold total
        omega
      exact htotal

/-- **Socialized losses.**  A loss that moved a deficit leaves an equity of zero. -/
theorem equity_processSocializedLoss {notice : OrderResponse} {nowNs : Nat}
    (hfit : s.LossFits loss) (hloss : (s.processSocializedLoss loss nowNs).2 = some notice) :
    ((s.processSocializedLoss loss nowNs).1.marginState loss.userId
      ((s.processSocializedLoss loss nowNs).1.account loss.userId)).equity = 0 := by
  rcases s.processSocializedLoss_cases loss nowNs with hnone |
    ⟨account, notice', haccount, hequity, hmoved⟩
  · rw [hnone] at hloss
    exact absurd hloss (Option.some_ne_none _).symm
  · obtain ⟨hsum, hfits⟩ := hfit account haccount
    obtain ⟨hdeficit, hcredit, -⟩ := hfits hequity
    rw [hmoved, sat64_of_fits hdeficit]
    have hstate : (s.marginState loss.userId account).equity =
        account.collateral + (s.marginState loss.userId account).unrealizedPnl := sat64_of_fits hsum
    have hafter : (s.moveDeficit loss account (-(s.marginState loss.userId account).equity)).account
        loss.userId = account.credit (-(s.marginState loss.userId account).equity) := by
      rw [account_moveDeficit, if_pos rfl]
    have hcollateral : (account.credit (-(s.marginState loss.userId account).equity)).collateral =
        account.collateral - (s.marginState loss.userId account).equity := sat64_of_fits hcredit
    change sat64 (((s.moveDeficit loss account _).account loss.userId).collateral +
      (s.marginState loss.userId account).unrealizedPnl) = 0
    rw [hafter, hcollateral, hstate]
    have hzero : account.collateral - (account.collateral +
        (s.marginState loss.userId account).unrealizedPnl) +
        (s.marginState loss.userId account).unrealizedPnl = 0 := by ring
    rw [hzero]
    decide

end Shard

/-! ## Runs -/

inductive MoneyOp
  | fill (event : FillEvent)
  | funding (nowSecs : Nat)
  | loss (loss : SocializedLoss) (nowNs : Nat)
  deriving DecidableEq, Repr

namespace Shard

def money (s : Shard) : MoneyOp → Shard
  | .fill event => s.processFill event
  | .funding nowSecs => s.maybeSettleFunding nowSecs
  | .loss loss nowNs => (s.processSocializedLoss loss nowNs).1

def MoneyFits (s : Shard) : MoneyOp → Prop
  | .fill event => s.FillSafe event
  | .funding nowSecs => s.FundingFits nowSecs
  | .loss loss _ => s.LossFits loss

instance (s : Shard) : ∀ op, Decidable (s.MoneyFits op)
  | .fill event => inferInstanceAs (Decidable (s.FillSafe event))
  | .funding nowSecs => inferInstanceAs (Decidable (s.FundingFits nowSecs))
  | .loss loss _ => inferInstanceAs (Decidable (s.LossFits loss))

def feeCharged (s : Shard) : MoneyOp → Int
  | .fill event => s.fillFees event
  | _ => 0

def feesCharged : Shard → List MoneyOp → Int
  | _, [] => 0
  | s, op :: ops => s.feeCharged op + feesCharged (s.money op) ops

theorem moves_money {s : Shard} {op : MoneyOp} (h : s.Balanced) (hfits : s.MoneyFits op) :
    s.Moves (s.money op) (s.feeCharged op) := by
  cases op with
  | fill => exact moves_processFill h hfits
  | funding => exact moves_maybeSettleFunding h hfits
  | loss loss nowNs => exact moves_processSocializedLoss h hfits nowNs

theorem moves_run {s : Shard} {ops : List MoneyOp} (h : s.Balanced)
    (hfits : Along (fun s op => some (s.money op)) MoneyFits s ops) :
    s.Moves (ops.foldl money s) (s.feesCharged ops) := by
  induction ops generalizing s with
  | nil => exact .refl h
  | cons op ops ih =>
    have hfirst := moves_money h hfits.1
    exact hfirst.trans (ih hfirst.balanced (hfits.2 _ rfl))

end Shard

/-- **Money conservation.**  In a shard that owns all users and starts with no positions, over every
sequence of fills, funding and socialized losses without a saturation, the collateral and the
insurance funds change by the fees charged; every funding settlement, pushed or to come, sums to
zero; and a socialized loss that moves a deficit leaves an equity of zero. -/
theorem money_conserved (s : Shard) (ops : List MoneyOp) (users funds : Finset Nat)
    (howns : ∀ userId, s.userInShard userId)
    (hpositions : ∀ userId symbolId, s.positions userId symbolId = none)
    (hexposure : ∀ symbolId, s.exposure symbolId = [])
    (hring : ∀ events ∈ s.persist, events = [])
    (hfits : Along (fun s op => some (s.money op)) Shard.MoneyFits s ops)
    (hcover : (ops.foldl Shard.money s).Covers users funds) :
    let s' := ops.foldl Shard.money s
    s'.total users funds = s.total users funds - s.feesCharged ops ∧
      (∀ events ∈ s'.persist, ∀ settlement, PersistEvent.fundingSettlement settlement ∈ events →
        (settlement.payments.map FundingRecord.amount).sum = 0) ∧
      (∀ sid, s'.IntervalFits sid → (s'.fundingAmounts sid).sum = 0) ∧
      ∀ loss nowNs notice, s'.LossFits loss →
        (s'.processSocializedLoss loss nowNs).2 = some notice →
        ((s'.processSocializedLoss loss nowNs).1.marginState loss.userId
          ((s'.processSocializedLoss loss nowNs).1.account loss.userId)).equity = 0 := by
  intro s'
  have hstart := Shard.Balanced.of_no_positions howns hpositions hexposure
  have hmoves := Shard.moves_run hstart hfits
  have hsettled : s.Settled := by
    intro events hmem settlement hsettlement
    rw [hring events hmem] at hsettlement
    exact absurd hsettlement not_mem_nil
  refine ⟨hmoves.total users funds hcover, hmoves.settled hsettled, fun sid hfit => ?_, ?_⟩
  · exact Shard.sum_fundingAmounts hmoves.balanced hfit
  · intro loss nowNs notice hfit hloss
    exact Shard.equity_processSocializedLoss hfit hloss

/-- User 7 buys from user 8 and pays a fee of 2 and funding of 22; the fund makes up the 4 by which
the account is below zero. -/
theorem money_conserved_loss :
    let s : Shard := {
      maxSymbols := 1, liquidation := ⟨[], [], 0, 0, 0, 1, 0⟩
      margin := ⟨fun _ => some ⟨1000, 500, 0, 0⟩⟩, persist := some []
      markPrices := fun _ => 110, indexPrices := fun _ => ⟨100, true⟩
      fundingMinBps := fun _ => -1000, fundingMaxBps := fun _ => 1000
      fundingIntervalSecs := fun _ => 10, takerFeeBps := fun _ => 100 }
    let ops : List MoneyOp := [.fill ⟨1, 0, 7, 8, 100, 2, .buy, 0⟩, .funding 5,
      .loss ⟨7, 0, 1, .sell, 110, 2, 0⟩ 0]
    Along (fun s op => some (s.money op)) Shard.MoneyFits s ops ∧
      ((ops.foldl Shard.money s).fund 0).balance = -4 ∧
      ∃ users funds, (ops.foldl Shard.money s).Covers users funds ∧
        (ops.foldl Shard.money s).total users funds = -2 := by
  intro s ops
  have howns : ∀ userId, s.userInShard userId := fun userId => decide_eq_true (Nat.mod_one userId)
  have hall : Along (fun s op => some (s.money op)) Shard.MoneyFits s ops ∧
      ((ops.foldl Shard.money s).fund 0).balance = -4 ∧ s.feesCharged ops = 2 := by decide +kernel
  obtain ⟨hfits, hbalance, hfees⟩ := hall
  have hring : ∀ events ∈ s.persist, events = [] := fun _ hmem => (Option.some.inj hmem).symm
  have hmoves := Shard.moves_run
    (Shard.Balanced.of_no_positions howns (fun _ _ => rfl) fun _ => rfl) hfits
  obtain ⟨users, funds, hcover⟩ := hmoves.finite ⟨∅, ∅, fun _ h => absurd rfl h, fun _ h =>
    absurd rfl h⟩
  have hconserved := money_conserved s ops users funds howns (fun _ _ => rfl) (fun _ => rfl) hring
    hfits hcover
  have hstart : s.total users funds = 0 := by
    have haccounts : ∀ userId ∈ users, (s.account userId).collateral = 0 := fun _ _ => rfl
    have hfunds : ∀ symbolId ∈ funds, (s.fund symbolId).balance = 0 := fun _ _ => rfl
    rw [Shard.total, Finset.sum_eq_zero haccounts, Finset.sum_eq_zero hfunds, add_zero]
  refine ⟨hfits, hbalance, users, funds, hcover, hconserved.1.trans ?_⟩
  rw [hfees, hstart]
  rfl

end Rsx.Risk
