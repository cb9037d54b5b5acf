import Rsx.Risk.Accounting
import Rsx.Risk.Shard

/-!
# What a fill changes

The steps of `process_fill`, each by the fields it touches: the two legs change a position, an
account and the exposure of their user, the liquidation checks change neither, and the rows go to
the persist ring.
-/

namespace Rsx.Risk.Shard

open Function Book Option List

variable {s : Shard} {userId symbolId : Nat} {fill : FillEvent} {side : Side} {fee : Int}

def account (s : Shard) (userId : Nat) : Account :=
  (s.accounts userId).getD ⟨userId, 0, 0⟩

def position (s : Shard) (userId symbolId : Nat) : Position :=
  (s.positions userId symbolId).getD { userId := userId, symbolId := symbolId }

theorem update_ne_none_iff {β : Type} {f : Nat → Option β} {key other : Nat} {b : β} :
    update f key (some b) other ≠ none ↔ other = key ∨ f other ≠ none := by
  rw [update_apply]
  split_ifs with h <;> simp [h]

theorem getD_update {β : Type} (f : Nat → Option β) (key other : Nat) (b d : β) :
    (update f key (some b) other).getD d = if other = key then b else (f other).getD d := by
  rw [update_apply]
  split_ifs <;> rfl

/-! ## Liquidation checks -/

def withLiquidation (s : Shard) (prices : Nat → Int) (dirty : Bool)
    (liquidation : LiquidationEngine) (cancels : List CancelRequest) : Shard :=
  { s with
    fallbackMarkPrices := prices
    markDirty := dirty
    liquidation := liquidation
    pendingCancels := cancels }

theorem freshPrices_eq (s : Shard) : ∃ prices dirty, s.freshPrices =
    s.withLiquidation prices dirty s.liquidation s.pendingCancels := by
  unfold freshPrices
  split <;> exact ⟨_, _, rfl⟩

theorem scanUser_eq (s : Shard) (userId nowNs : Nat) (account : Account) :
    ∃ liquidation cancels, s.scanUser userId nowNs account =
      s.withLiquidation s.fallbackMarkPrices s.markDirty liquidation cancels := by
  unfold scanUser
  dsimp only
  split <;> exact ⟨_, _, rfl⟩

theorem checkLiquidationFor_cases (s : Shard) (userId nowNs : Nat) :
    (s.checkLiquidationFor userId nowNs = s ∧ ¬ s.userInShard userId) ∨
      (s.checkLiquidationFor userId nowNs = s.freshPrices ∧ s.accounts userId = none) ∨
      ∃ account, s.checkLiquidationFor userId nowNs =
        s.freshPrices.scanUser userId nowNs account ∧ s.accounts userId = some account ∧
          s.userInShard userId := by
  obtain ⟨_, _, hfresh⟩ := freshPrices_eq s
  have haccounts : s.freshPrices.accounts = s.accounts := by rw [hfresh]; rfl
  unfold checkLiquidationFor
  split <;> rename_i hshard
  · exact .inl ⟨rfl, hshard⟩
  · dsimp only
    rw [haccounts]
    cases s.accounts userId with
    | none => exact .inr (.inl ⟨rfl, rfl⟩)
    | some account => exact .inr (.inr ⟨account, rfl, rfl, not_not.1 hshard⟩)

theorem checkLiquidationFor_eq (s : Shard) (userId nowNs : Nat) :
    ∃ prices dirty liquidation cancels, s.checkLiquidationFor userId nowNs =
      s.withLiquidation prices dirty liquidation cancels := by
  obtain ⟨_, _, hfresh⟩ := freshPrices_eq s
  rcases s.checkLiquidationFor_cases userId nowNs with ⟨h, -⟩ | ⟨h, -⟩ | ⟨account, h, -⟩
  · exact ⟨_, _, _, _, h⟩
  · exact ⟨_, _, _, _, h.trans hfresh⟩
  · obtain ⟨_, _, hscan⟩ := scanUser_eq s.freshPrices userId nowNs account
    rw [h, hscan, hfresh]
    exact ⟨_, _, _, _, rfl⟩

/-! ## The persist ring -/

def pushAll (s : Shard) (events : List PersistEvent) : Shard :=
  { s with persist := s.persist.map (· ++ events) }

theorem pushAll_nil (s : Shard) : s.pushAll [] = s := by
  have hring : s.persist.map (· ++ []) = s.persist := by
    cases s.persist <;> simp
  unfold pushAll
  rw [hring]

theorem pushAll_append (s : Shard) (events events' : List PersistEvent) :
    (s.pushAll events).pushAll events' = s.pushAll (events ++ events') := by
  unfold pushAll
  cases s.persist <;> simp

theorem pushPersist_eq (s : Shard) (event : PersistEvent) :
    s.pushPersist event = s.pushAll [event] :=
  rfl

def rows (s : Shard) (userId symbolId : Nat) : List PersistEvent :=
  ((s.positions userId symbolId).map PersistEvent.position).toList ++
    ((s.accounts userId).map PersistEvent.account).toList

def fillEvents (s : Shard) (fill : FillEvent) : List PersistEvent :=
  (if s.userInShard fill.takerUserId then
    .fill ⟨fill.symbolId, fill.takerUserId, fill.makerUserId, fill.price, fill.qty,
      calculateFee fill.qty fill.price (s.takerFeeBps fill.symbolId),
      calculateFee fill.qty fill.price (s.makerFeeBps fill.symbolId), fill.takerSide, fill.seq,
      fill.timestampNs⟩ :: s.rows fill.takerUserId fill.symbolId
  else []) ++
    ((if s.userInShard fill.makerUserId then s.rows fill.makerUserId fill.symbolId else []) ++
      [.tip fill.symbolId fill.seq])

theorem exists_fillEvents (s : Shard) (fill : FillEvent) :
    ∃ events, s.fillEvents fill = events ++ [.tip fill.symbolId fill.seq] ∧
      ∀ event ∈ events, (∃ row, event = .fill row) ∨ (∃ row, event = .position row) ∨
        ∃ row, event = .account row := by
  have hrows : ∀ userId, ∀ event ∈ s.rows userId fill.symbolId,
      (∃ row, event = .position row) ∨ ∃ row, event = .account row := by
    intro userId event hmem
    rw [rows, mem_append, mem_toList, mem_toList, map_eq_some_iff, map_eq_some_iff] at hmem
    rcases hmem with ⟨row, _, rfl⟩ | ⟨row, _, rfl⟩
    · exact .inl ⟨row, rfl⟩
    · exact .inr ⟨row, rfl⟩
  refine ⟨_, (append_assoc _ _ _).symm, fun event hmem => ?_⟩
  rw [mem_append, mem_ite_nil_right, mem_ite_nil_right, mem_cons] at hmem
  rcases hmem with ⟨_, rfl | hmem⟩ | ⟨_, hmem⟩
  · exact .inl ⟨_, rfl⟩
  · exact .inr (hrows _ event hmem)
  · exact .inr (hrows _ event hmem)

theorem pushRows_eq (s : Shard) (userId symbolId : Nat) :
    s.pushRows userId symbolId = s.pushAll (s.rows userId symbolId) := by
  unfold pushRows rows
  cases s.positions userId symbolId with
  | none =>
    dsimp only
    cases s.accounts userId with
    | none => exact (pushAll_nil s).symm
    | some => rfl
  | some position =>
    dsimp only
    have haccounts : (s.pushPersist (.position position)).accounts userId = s.accounts userId := rfl
    rw [haccounts]
    cases s.accounts userId with
    | none => rfl
    | some account => exact pushAll_append s [.position position] [.account account]

theorem pushAll_ite (s : Shard) (c : Prop) [Decidable c] (events : List PersistEvent) :
    (if c then s.pushAll events else s) = s.pushAll (if c then events else []) := by
  split
  · rfl
  · exact (pushAll_nil s).symm

theorem persistFill_eq (s : Shard) (fill : FillEvent) :
    s.persistFill fill = s.pushAll (s.fillEvents fill) := by
  have htaker : ∀ row, (s.pushPersist row).pushRows fill.takerUserId fill.symbolId =
      s.pushAll (row :: s.rows fill.takerUserId fill.symbolId) := by
    intro row
    rw [pushRows_eq]
    exact pushAll_append s [row] (s.rows fill.takerUserId fill.symbolId)
  unfold persistFill
  dsimp only
  rw [htaker, pushAll_ite, pushRows_eq]
  rw [pushAll_ite, pushPersist_eq, pushAll_append, pushAll_append]
  rfl

/-! ## Freezes -/

def releaseEvents (s : Shard) (userId : Nat) (orderId : OrderId) : List PersistEvent :=
  if s.userInShard userId ∧ (s.frozenOrders orderId).any (·.userId = userId) then
    [.frozenRemove userId orderId]
  else []

def confirmEvents (s : Shard) (userId : Nat) (orderId : OrderId) (symbolId : Nat) :
    List PersistEvent :=
  match s.frozenOrders orderId with
  | some frozen =>
    if s.userInShard userId ∧ frozen.userId = userId then
      [.frozenInsert ⟨userId, orderId, symbolId, frozen.amount⟩]
    else []
  | none => []

theorem confirmFreeze_eq (s : Shard) (userId : Nat) (orderId : OrderId) (symbolId : Nat) :
    s.confirmFreeze userId orderId symbolId =
      s.pushAll (s.confirmEvents userId orderId symbolId) := by
  unfold confirmFreeze confirmEvents
  rw [ite_not]
  cases s.frozenOrders orderId with
  | none => rw [ite_self, pushAll_nil]
  | some frozen =>
    rw [← pushAll_ite, ite_and]
    rfl

theorem releaseFrozenForOrder_eq (s : Shard) (userId : Nat) (orderId : OrderId) :
    s.releaseFrozenForOrder userId orderId =
      if s.userInShard userId ∧ (s.frozenOrders orderId).any (·.userId = userId) then
        pushAll { s with
          frozenOrders := update s.frozenOrders orderId none
          frozenByUser := update s.frozenByUser userId
            ((s.frozenByUser userId).filter (·.1 ≠ orderId)) } [.frozenRemove userId orderId]
      else s := by
  unfold releaseFrozenForOrder
  rw [ite_not, ite_and]
  cases s.frozenOrders orderId with
  | none => rfl
  | some frozen =>
    simp only [any_some, decide_eq_true_eq]
    rfl

/-! ## Legs -/

theorem ensureAccount_eq (s : Shard) (userId : Nat) : s.ensureAccount userId =
      { s with accounts := update s.accounts userId (some (s.account userId)) } := by
  unfold ensureAccount account
  cases haccount : s.accounts userId with
  | none => rfl
  | some account =>
    have hsame : update s.accounts userId (some account) = s.accounts := by
      rw [← haccount, update_eq_self]
    rw [getD_some, hsame]

theorem ensurePosition_eq (s : Shard) (userId symbolId : Nat) : s.ensurePosition userId symbolId =
      s.setPosition userId symbolId (s.position userId symbolId) := by
  unfold ensurePosition position setPosition
  cases hposition : s.positions userId symbolId with
  | none => rfl
  | some position =>
    have hsame : update (s.positions userId) symbolId (some position) = s.positions userId := by
      rw [← hposition, update_eq_self]
    rw [getD_some, hsame, update_eq_self]

def bookLeg (s : Shard) (userId : Nat) (fill : FillEvent) (side : Side) (fee : Int) : Shard :=
  let position := (s.position userId fill.symbolId).applyFill side fill.price fill.qty fill.seq
  { s with
    accounts := update s.accounts userId (some ((s.account userId).deductFee fee))
    positions := update s.positions userId
      (update (s.positions userId) fill.symbolId (some position))
    exposure := update s.exposure fill.symbolId
      (if position.isEmpty then (s.exposure fill.symbolId).filter (· ≠ userId)
      else addExposed (s.exposure fill.symbolId) userId) }

theorem applyLeg_eq (s : Shard) (userId : Nat) (fill : FillEvent) (side : Side) (fee : Int) :
    s.applyLeg userId fill side fee =
      if s.userInShard userId then s.bookLeg userId fill side fee else s := by
  unfold applyLeg
  by_cases hshard : s.userInShard userId
  · rw [if_neg (not_not.2 hshard), if_pos hshard, ensureAccount_eq, ensurePosition_eq]
    unfold bookLeg setPosition setAccount updateExposure
    simp only [update_self, update_idem]
    rfl
  · rw [if_pos hshard, if_neg hshard]

/-! ## Fills -/

def Fresh (s : Shard) (fill : FillEvent) : Prop :=
  fill.symbolId < s.maxSymbols ∧ s.tips fill.symbolId < fill.seq
  deriving Decidable

theorem processFill_of_not_fresh (h : ¬ s.Fresh fill) : s.processFill fill = s := by
  unfold processFill
  rw [if_pos]
  unfold Fresh at h
  omega

theorem processFill_of_fresh (h : s.Fresh fill) :
    ∃ prices dirty liquidation cancels, s.processFill fill =
      ((s.bookFill fill).withLiquidation prices dirty liquidation cancels).pushAll
        ((s.bookFill fill).fillEvents fill) := by
  obtain ⟨_, _⟩ := h
  obtain ⟨prices, dirty, liquidation, cancels, htaker⟩ :=
    checkLiquidationFor_eq (s.bookFill fill) fill.takerUserId fill.timestampNs
  obtain ⟨prices', dirty', liquidation', cancels', hmaker⟩ := checkLiquidationFor_eq
    ((s.bookFill fill).withLiquidation prices dirty liquidation cancels) fill.makerUserId
    fill.timestampNs
  refine ⟨prices', dirty', liquidation', cancels', ?_⟩
  unfold processFill
  rw [if_neg (by omega)]
  dsimp only
  rw [htaker, hmaker, persistFill_eq]
  rfl

theorem applyLeg_frame (s : Shard) (userId : Nat) (fill : FillEvent) (side : Side) (fee : Int) :
    ∃ accounts positions exposure, s.applyLeg userId fill side fee =
      { s with accounts := accounts, positions := positions, exposure := exposure } := by
  rw [applyLeg_eq]
  split
  · exact ⟨_, _, _, rfl⟩
  · exact ⟨s.accounts, s.positions, s.exposure, rfl⟩

theorem bookFill_frame (s : Shard) (fill : FillEvent) :
    ∃ accounts positions exposure, s.bookFill fill =
      { s with
        accounts := accounts, positions := positions, exposure := exposure
        tips := update s.tips fill.symbolId fill.seq } := by
  obtain ⟨accounts, positions, exposure, htaker⟩ := s.applyLeg_frame fill.takerUserId fill
    fill.takerSide (calculateFee fill.qty fill.price (s.takerFeeBps fill.symbolId))
  obtain ⟨accounts', positions', exposure', hmaker⟩ := applyLeg_frame
    { s with accounts := accounts, positions := positions, exposure := exposure }
    fill.makerUserId fill fill.takerSide.opposite
    (calculateFee fill.qty fill.price (s.makerFeeBps fill.symbolId))
  refine ⟨accounts', positions', exposure', ?_⟩
  unfold bookFill
  dsimp only
  rw [htaker, hmaker]

theorem processFill_frame (s : Shard) (fill : FillEvent) :
    ∃ accounts positions exposure tips prices dirty liquidation cancels persist,
      s.processFill fill =
        { s with
          accounts := accounts, positions := positions, exposure := exposure, tips := tips
          fallbackMarkPrices := prices, markDirty := dirty, liquidation := liquidation
          pendingCancels := cancels, persist := persist } := by
  by_cases hfresh : s.Fresh fill
  · obtain ⟨_, _, _, _, hfill⟩ := processFill_of_fresh hfresh
    obtain ⟨_, _, _, hbook⟩ := s.bookFill_frame fill
    rw [hfill, hbook]
    exact ⟨_, _, _, _, _, _, _, _, _, rfl⟩
  · rw [processFill_of_not_fresh hfresh]
    exact ⟨s.accounts, s.positions, s.exposure, s.tips, s.fallbackMarkPrices, s.markDirty,
      s.liquidation, s.pendingCancels, s.persist, rfl⟩

end Rsx.Risk.Shard
