import Rsx.Risk.MissingPrice

/-!
# Which price changes start liquidations

The margin scan of a tick visits the users of the symbols that have a stashed quote.  A mark price
is stored and never stashed, and funding moves money after the scan.
-/

namespace Rsx.Risk

open Function Book List Option PortfolioMargin

namespace Shard

variable {s s' : Shard} {userId nowNs : Nat} {fill : FillEvent}
  {symbolId sid nowSecs : Nat} {bbo : BboUpdate}

/-! ## The wiring of the scan -/

/-- Every open position has its symbol as key and an account for its user. -/
structure Owned (s : Shard) : Prop where
  symbol : ∀ userId symbolId, (s.position userId symbolId).symbolId = symbolId
  account : ∀ userId symbolId, ¬ (s.position userId symbolId).isEmpty → s.accounts userId ≠ none

/-- What the scan relies on: the index, the accounts, the stash and the cached prices. -/
structure Wired (s : Shard) : Prop where
  cached : s.PricesCached
  indexed : s.Indexed
  owned : s.Owned
  stash : ∀ sid, ∀ bbo ∈ s.stashedBbo sid, bbo.symbolId = sid ∧ sid < s.maxSymbols

theorem Owned.congr (h : s.Owned) (hpositions : s'.positions = s.positions)
    (haccounts : ∀ userId, s.accounts userId ≠ none → s'.accounts userId ≠ none) : s'.Owned := by
  have hposition : ∀ userId symbolId, s'.position userId symbolId = s.position userId symbolId := by
    intro userId symbolId
    rw [position, hpositions]
    rfl
  refine ⟨fun userId symbolId => ?_, fun userId symbolId hopen => ?_⟩
  · rw [hposition]
    exact h.symbol userId symbolId
  · rw [hposition] at hopen
    exact haccounts userId (h.account userId symbolId hopen)

theorem Owned.bookLeg (h : s.Owned) (user : Nat) (side : Side) (fee : Int) :
    (s.bookLeg user fill side fee).Owned := by
  refine ⟨fun userId symbolId => ?_, fun userId symbolId hopen => ?_⟩
  · rw [position_bookLeg]
    split
    · rw [(Position.applyFill_ids _ side fill.price fill.qty fill.seq).2.1]
      exact h.symbol userId symbolId
    · exact h.symbol userId symbolId
  · rw [position_bookLeg] at hopen
    show update s.accounts user _ userId ≠ none
    rcases eq_or_ne userId user with rfl | hne
    · rw [update_self]
      exact some_ne_none _
    · rw [if_neg fun hleg => hne hleg.1.symm] at hopen
      rw [update_of_ne hne]
      exact h.account userId symbolId hopen

theorem Owned.applyLeg (h : s.Owned) (user : Nat) (side : Side) (fee : Int) :
    (s.applyLeg user fill side fee).Owned := by
  rw [applyLeg_eq]
  split
  · exact h.bookLeg user side fee
  · exact h

theorem Owned.processFill (h : s.Owned) : (s.processFill fill).Owned := by
  by_cases hfresh : s.Fresh fill
  · obtain ⟨_, _, _, _, hfill⟩ := processFill_of_fresh hfresh
    have hbook : (s.bookFill fill).Owned :=
      ((h.applyLeg _ _ _).applyLeg _ _ _).congr rfl fun _ h => h
    rw [hfill]
    exact hbook.congr rfl fun _ h => h
  · rw [processFill_of_not_fresh hfresh]
    exact h

theorem Wired.of_no_positions (hcached : s.PricesCached)
    (hpositions : ∀ userId symbolId, s.positions userId symbolId = none)
    (hexposure : ∀ symbolId, s.exposure symbolId = [])
    (hstash : ∀ symbolId, s.stashedBbo symbolId = none) : s.Wired where
  cached := hcached
  indexed := .of_no_positions hpositions hexposure
  owned := by
    refine ⟨fun userId symbolId => ?_, fun userId symbolId hopen => ?_⟩
    · rw [position, hpositions, getD_none]
    · rw [position, hpositions, getD_none] at hopen
      exact absurd rfl hopen
  stash := by
    intro sid bbo hbbo
    rw [hstash] at hbbo
    cases hbbo

theorem Indexed.congr (h : s.Indexed) (hpositions : s'.positions = s.positions)
    (hexposure : s'.exposure = s.exposure) : s'.Indexed := by
  intro symbolId
  obtain ⟨hnodup, hmem⟩ := h symbolId
  rw [hexposure]
  refine ⟨hnodup, fun userId => ?_⟩
  rw [hmem userId, position, position, hpositions]

theorem Keeps.wired (h : s.Keeps s') (hwired : s.Wired) : s'.Wired where
  cached := h.prices.cached hwired.cached
  indexed := hwired.indexed.congr h.positions h.exposure
  owned := hwired.owned.congr h.positions h.accounts
  stash := by
    rw [h.stashed, h.shard.2.2]
    exact hwired.stash

theorem foldl_check_eq (s : Shard) (users : List Nat) (nowNs : Nat) :
    ∃ prices dirty liquidation cancels,
      users.foldl (fun s other => s.checkLiquidationFor other nowNs) s =
        s.withLiquidation prices dirty liquidation cancels := by
  induction users generalizing s with
  | nil => exact ⟨s.fallbackMarkPrices, s.markDirty, s.liquidation, s.pendingCancels, rfl⟩
  | cons other users ih =>
    obtain ⟨_, _, _, _, hcheck⟩ := s.checkLiquidationFor_eq other nowNs
    obtain ⟨prices', dirty', liquidation', cancels', hrest⟩ :=
      ih (s.checkLiquidationFor other nowNs)
    refine ⟨prices', dirty', liquidation', cancels', ?_⟩
    rw [foldl_cons, hrest, hcheck]
    rfl

theorem processBbo_frame (s : Shard) (bbo : BboUpdate) : ∃ indexPrices dirty,
    s.processBbo bbo = { s with indexPrices := indexPrices, markDirty := dirty } := by
  unfold processBbo
  split
  · exact ⟨s.indexPrices, s.markDirty, rfl⟩
  · exact ⟨_, _, rfl⟩

theorem updateMark_frame (s : Shard) (symbolId : Nat) (price : Int) : ∃ markPrices dirty,
    s.updateMark symbolId price = { s with markPrices := markPrices, markDirty := dirty } := by
  unfold updateMark
  split
  · exact ⟨s.markPrices, s.markDirty, rfl⟩
  · exact ⟨_, _, rfl⟩

theorem quoted_frame (s : Shard) (sid : Nat) (bbo : BboUpdate) : ∃ indexPrices dirty,
    s.quoted sid bbo = { s with
      stashedBbo := update s.stashedBbo sid none
      indexPrices := indexPrices, markDirty := dirty } := by
  obtain ⟨indexPrices, dirty, hbbo⟩ :=
    processBbo_frame { s with stashedBbo := update s.stashedBbo sid none } bbo
  exact ⟨indexPrices, dirty, hbbo⟩

theorem drainSymbol_none (nowNs : Nat) (h : s.stashedBbo sid = none) :
    drainSymbol nowNs s sid = s := by
  unfold drainSymbol
  rw [h]

theorem drainSymbol_some (nowNs : Nat) (h : s.stashedBbo sid = some bbo) :
    ∃ prices dirty liquidation cancels, drainSymbol nowNs s sid =
      (s.quoted sid bbo).withLiquidation prices dirty liquidation cancels := by
  unfold drainSymbol
  rw [h]
  exact foldl_check_eq (s.quoted sid bbo) _ nowNs

theorem drainSymbol_frame (nowNs : Nat) (s : Shard) (sid : Nat) :
    ∃ indexPrices prices dirty liquidation cancels, drainSymbol nowNs s sid =
      { s with
        stashedBbo := update s.stashedBbo sid none
        indexPrices := indexPrices, fallbackMarkPrices := prices, markDirty := dirty
        liquidation := liquidation, pendingCancels := cancels } := by
  cases hstash : s.stashedBbo sid with
  | none =>
    refine ⟨s.indexPrices, s.fallbackMarkPrices, s.markDirty, s.liquidation, s.pendingCancels, ?_⟩
    rw [drainSymbol_none nowNs hstash, ← hstash, update_eq_self]
  | some bbo =>
    obtain ⟨_, _, hquoted⟩ := s.quoted_frame sid bbo
    obtain ⟨_, _, _, _, hdrain⟩ := drainSymbol_some nowNs hstash
    rw [hquoted] at hdrain
    exact ⟨_, _, _, _, _, hdrain⟩

theorem stash_update (hstash : ∀ sid, ∀ bbo ∈ s.stashedBbo sid, bbo.symbolId = sid ∧
    sid < s.maxSymbols) (cleared : Nat) :
    ∀ sid, ∀ bbo ∈ update s.stashedBbo cleared none sid,
      bbo.symbolId = sid ∧ sid < s.maxSymbols := by
  intro sid bbo hbbo
  rcases eq_or_ne sid cleared with rfl | hne
  · rw [update_self] at hbbo
    cases hbbo
  · rw [update_of_ne hne] at hbbo
    exact hstash sid bbo hbbo

theorem Wired.drainSymbol (h : s.Wired) (nowNs sid : Nat) : (drainSymbol nowNs s sid).Wired := by
  have hcached := h.cached.drainSymbol nowNs sid
  obtain ⟨_, _, _, _, _, hframe⟩ := drainSymbol_frame nowNs s sid
  rw [hframe] at hcached ⊢
  exact ⟨hcached, h.indexed.congr rfl rfl, h.owned.congr rfl fun _ h => h, stash_update h.stash sid⟩

theorem Wired.drain (h : s.Wired) (nowNs : Nat) (symbols : List Nat) :
    (symbols.foldl (Shard.drainSymbol nowNs) s).Wired := by
  induction symbols generalizing s with
  | nil => exact h
  | cons sid symbols ih => exact ih (h.drainSymbol nowNs sid)

theorem Wired.tick (h : s.Wired) (rings : ShardRings) (nowSecs : Nat) (ids : Nat → OrderId) :
    (s.tick rings nowSecs ids).1.Wired := by
  have hbefore := (s.keeps_beforeQuotes rings nowSecs ids).wired h
  rw [tick_eq]
  split
  · exact (still_maybeSettleFunding _ nowSecs).toKeeps.wired (hbefore.drain _ _)
  · exact hbefore

theorem Wired.perform (h : s.Wired) (op : RiskOp) : (s.perform op).Wired := by
  have hcached := h.cached.perform op
  rcases s.perform_cases op with ⟨event, rfl⟩ | ⟨rings, nowSecs, ids, rfl⟩ | hcalm | hstores
  · refine ⟨hcached, h.indexed.processFill, h.owned.processFill, ?_⟩
    obtain ⟨_, _, _, _, _, _, _, _, _, hframe⟩ := s.processFill_frame event
    unfold Shard.perform
    dsimp only
    rw [hframe]
    exact h.stash
  · exact h.tick rings nowSecs ids
  · exact hcalm.toKeeps.wired h
  · obtain ⟨_, _, _, _, _, hframe⟩ := hstores.frame
    have hstash := hstores.stash
    rw [hframe] at hcached hstash ⊢
    exact ⟨hcached, h.indexed.congr rfl rfl, h.owned.congr rfl fun _ h => h,
      fun sid bbo hbbo => (hstash sid bbo hbbo).elim (h.stash sid bbo) id⟩

theorem Wired.run (h : s.Wired) (ops : List RiskOp) : (ops.foldl Shard.perform s).Wired := by
  induction ops generalizing s with
  | nil => exact h
  | cons op ops ih => exact ih (h.perform op)

/-- **The index of open positions.**  In every run of a shard that starts without positions it lists
each user with an open position in a symbol once, and each of them has an account. -/
theorem exposure_exact (s : Shard) (ops : List RiskOp) :
    let s' := ops.foldl perform { s with
      positions := fun _ _ => none, exposure := fun _ => [], stashedBbo := fun _ => none
      markDirty := true }
    s'.Indexed ∧ s'.Owned := by
  intro s'
  have h : s'.Wired := by
    refine Wired.run ?_ ops
    exact .of_no_positions nofun (fun _ _ => rfl) (fun _ => rfl) fun _ => rfl
  exact ⟨h.indexed, h.owned⟩

/-! ## One scan -/

/-- The liquidations of a user agree with their margin: below maintenance margin every open position
is being liquidated or pauses after a socialized loss, otherwise none is. -/
structure Triggered (s : Shard) (userId nowNs : Nat) : Prop where
  below : needsLiquidation (s.currentMargin userId) →
    ∀ p ∈ s.iterPositionsForUser userId, ¬ p.isEmpty →
      s.liquidation.Live userId p.symbolId ∨ s.liquidation.Cooling userId p.symbolId nowNs
  recovered : ¬ needsLiquidation (s.currentMargin userId) →
    ∀ p ∈ s.iterPositionsForUser userId, ¬ p.isEmpty → ¬ s.liquidation.Live userId p.symbolId

theorem iterPositions_check (s : Shard) (other nowNs userId : Nat) :
    (s.checkLiquidationFor other nowNs).iterPositionsForUser userId =
      s.iterPositionsForUser userId := by
  obtain ⟨_, _, _, _, hcheck⟩ := s.checkLiquidationFor_eq other nowNs
  rw [hcheck]
  rfl

theorem triggered_check (hshard : s.userInShard userId) (hcached : s.PricesCached)
    (haccount : s.accounts userId ≠ none) (nowNs : Nat) :
    (s.checkLiquidationFor userId nowNs).Triggered userId nowNs := by
  obtain ⟨-, hspec⟩ := checkLiquidationFor_spec hshard hcached haccount nowNs
  have hmargin := (checkLiquidationFor_keeps hcached userId nowNs).2 userId
  refine ⟨fun hneeds => ?_, fun hneeds => ?_⟩ <;> rw [iterPositions_check] <;>
    rw [hmargin] at hneeds
  · rwa [if_pos hneeds] at hspec
  · rw [if_neg hneeds] at hspec
    exact hspec.2.2

theorem Triggered.check (h : s.Triggered userId nowNs) (hcached : s.PricesCached) {other : Nat}
    (hne : userId ≠ other) : (s.checkLiquidationFor other nowNs).Triggered userId nowNs := by
  have hspares := (s.spares_checkLiquidationFor other nowNs).engine
  have hmargin := (checkLiquidationFor_keeps hcached other nowNs).2 userId
  refine ⟨fun hneeds => ?_, fun hneeds => ?_⟩ <;> rw [iterPositions_check] <;>
    rw [hmargin] at hneeds <;> intro p hp hopen <;> rw [hspares.live hne]
  · rw [hspares.cooling]
    exact h.below hneeds p hp hopen
  · exact h.recovered hneeds p hp hopen

theorem triggered_foldl_check {users : List Nat} (hshard : s.userInShard userId)
    (hcached : s.PricesCached) (haccount : s.accounts userId ≠ none)
    (h : s.Triggered userId nowNs ∨ userId ∈ users) :
    (users.foldl (fun s other => s.checkLiquidationFor other nowNs) s).Triggered userId nowNs := by
  induction users generalizing s with
  | nil => exact h.resolve_right not_mem_nil
  | cons other users ih =>
    have hcached' := (checkLiquidationFor_keeps hcached other nowNs).1
    have hkept : (s.checkLiquidationFor other nowNs).userInShard userId ∧
        (s.checkLiquidationFor other nowNs).accounts userId ≠ none := by
      obtain ⟨_, _, _, _, hcheck⟩ :=
        s.checkLiquidationFor_eq other nowNs
      rw [hcheck]
      exact ⟨hshard, haccount⟩
    refine ih hkept.1 hcached' hkept.2 ?_
    rcases eq_or_ne userId other with rfl | hne
    · exact .inl (triggered_check hshard hcached haccount nowNs)
    · exact h.imp (fun htriggered => htriggered.check hcached hne) fun hmem =>
        (mem_cons.1 hmem).resolve_left hne

/-! ## One drained quote -/

theorem foldl_prices (m : PortfolioMargin) {prices prices' : Nat → Int} {positions : List Position}
    {sums : Sums} (hsums : SumsFit sums)
    (hsame : ∀ p ∈ positions, p.isEmpty ∨ prices' p.symbolId = prices p.symbolId) :
    positions.foldl (m.addPosition prices') sums = positions.foldl (m.addPosition prices) sums := by
  induction positions generalizing sums with
  | nil => rfl
  | cons p positions ih =>
    have hstep : m.addPosition prices' sums p = m.addPosition prices sums p := by
      rcases hsame p mem_cons_self with hempty | hprice
      · rw [addPosition_empty m prices' hsums hempty, addPosition_empty m prices hsums hempty]
      · unfold addPosition
        rw [hprice]
    rw [foldl_cons, hstep]
    exact ih (sumsFit_addPosition m prices hsums p) fun q hq => hsame q (mem_cons_of_mem p hq)

theorem fallbackPrice_congr (hmark : s'.markPrices symbolId = s.markPrices symbolId)
    (hindex : s'.indexPrices symbolId = s.indexPrices symbolId) :
    s'.fallbackPrice symbolId = s.fallbackPrice symbolId := by
  unfold fallbackPrice
  simp only [hmark, hindex]

theorem fallbackPrice_quoted (hsymbol : bbo.symbolId = sid) (hne : symbolId ≠ sid) :
    (s.quoted sid bbo).fallbackPrice symbolId = s.fallbackPrice symbolId := by
  unfold quoted processBbo
  split
  · exact fallbackPrice_congr rfl rfl
  · exact fallbackPrice_congr rfl (update_of_ne (hsymbol ▸ hne) _ _)

theorem currentMargin_quoted (howned : s.Owned)
    (hsymbol : bbo.symbolId = sid) (hempty : (s.position userId sid).isEmpty) :
    (s.quoted sid bbo).currentMargin userId = s.currentMargin userId := by
  have hprices : ∀ p ∈ s.iterPositionsForUser userId,
      p.isEmpty ∨ (s.quoted sid bbo).fallbackPrice p.symbolId = s.fallbackPrice p.symbolId := by
    intro p hp
    obtain ⟨symbolId, -, hposition⟩ := mem_filterMap.1 hp
    have hkey : s.position userId symbolId = p := by
      rw [position, hposition, getD_some]
    have hid := howned.symbol userId symbolId
    rw [hkey] at hid
    rcases eq_or_ne symbolId sid with rfl | hne
    · exact .inl (hkey ▸ hempty)
    · exact .inr (fallbackPrice_quoted hsymbol (hid ▸ hne))
  have hsums : SumsFit {} := ⟨by decide, by decide, by decide, by decide⟩
  have hfold := foldl_prices s.margin hsums hprices
  obtain ⟨_, _, hquoted⟩ := s.quoted_frame sid bbo
  unfold currentMargin calculate
  rw [← hfold, hquoted]
  rfl

theorem triggered_drainSymbol (hwired : s.Wired) (hshard : s.userInShard userId)
    (haccount : s.accounts userId ≠ none) (sid : Nat)
    (h : s.Triggered userId nowNs ∨ (s.stashedBbo sid).isSome ∧ ¬ (s.position userId sid).isEmpty) :
    (drainSymbol nowNs s sid).Triggered userId nowNs := by
  unfold drainSymbol
  split <;> rename_i hstash
  · refine h.resolve_right fun hquoted => ?_
    rw [hstash] at hquoted
    cases hquoted.1
  · rename_i bbo
    have hcached := hwired.cached.quoted sid bbo
    obtain ⟨hsymbol, -⟩ := hwired.stash sid bbo hstash
    have hmargin : (s.position userId sid).isEmpty →
        (s.quoted sid bbo).currentMargin userId = s.currentMargin userId :=
      currentMargin_quoted hwired.owned hsymbol
    obtain ⟨_, _, hquoted⟩ := s.quoted_frame sid bbo
    have hindexed := (hwired.indexed sid).2 userId
    change ((s.quoted sid bbo).exposure sid).foldl _ (s.quoted sid bbo) |>.Triggered userId nowNs
    rw [hquoted] at hcached hmargin ⊢
    refine triggered_foldl_check hshard hcached haccount ?_
    by_cases hopen : (s.position userId sid).isEmpty
    · -- the quote is not about this user
      have hbefore := h.resolve_right fun hquote => hquote.2 hopen
      refine .inl ⟨fun hneeds => ?_, fun hneeds => ?_⟩
      · rw [hmargin hopen] at hneeds
        exact hbefore.below hneeds
      · rw [hmargin hopen] at hneeds
        exact hbefore.recovered hneeds
    · exact .inr (hindexed.2 hopen)

theorem triggered_drain {symbols : List Nat} (hwired : s.Wired) (hshard : s.userInShard userId)
    (haccount : s.accounts userId ≠ none)
    (h : s.Triggered userId nowNs ∨
      ∃ sid ∈ symbols, (s.stashedBbo sid).isSome ∧ ¬ (s.position userId sid).isEmpty) :
    (symbols.foldl (drainSymbol nowNs) s).Triggered userId nowNs := by
  induction symbols generalizing s with
  | nil =>
    refine h.resolve_right ?_
    rintro ⟨sid, hmem, -⟩
    exact absurd hmem not_mem_nil
  | cons first symbols ih =>
    have hwired' := hwired.drainSymbol nowNs first
    obtain ⟨_, _, _, _, _, hframe⟩ := drainSymbol_frame nowNs s first
    refine ih hwired' (by rw [hframe]; exact hshard) (by rw [hframe]; exact haccount) ?_
    rcases h with htriggered | ⟨sid, hmem, hquote⟩
    · exact .inl (triggered_drainSymbol hwired hshard haccount first (.inl htriggered))
    · rcases eq_or_ne sid first with rfl | hne
      · exact .inl (triggered_drainSymbol hwired hshard haccount sid (.inr hquote))
      · refine .inr ⟨sid, (mem_cons.1 hmem).resolve_left hne, ?_⟩
        rw [hframe]
        dsimp only
        rw [update_of_ne hne]
        exact hquote

/-! ## Funding that is not due -/

/-- The symbol is not configured or has settled the current interval. -/
def FundingSettled (s : Shard) (nowSecs sid : Nat) : Prop :=
  (s.margin.symbolParams sid).isSome → (s.fundingSettled sid).any fun lastId =>
    intervalId nowSecs (s.fundingIntervalSecs sid) ≤ lastId
  deriving Decidable

/-- No funding of the user is due: the clock of this second was already checked, or each symbol is
settled or one in which they have no open position. -/
def FundingIdle (s : Shard) (nowSecs userId : Nat) : Prop :=
  nowSecs = s.fundingCheckedSecs ∨
    ∀ sid < s.maxSymbols, (s.position userId sid).isEmpty ∨ s.FundingSettled nowSecs sid

instance (s : Shard) (nowSecs userId : Nat) : Decidable (s.FundingIdle nowSecs userId) :=
  inferInstanceAs (Decidable (_ ∨ _))

theorem settleSymbolFunding_idle (h : s.FundingSettled nowSecs sid) :
    settleSymbolFunding nowSecs s sid = s := by
  unfold settleSymbolFunding
  split <;> rename_i hparams
  · rfl
  · have hsettled := h (by rw [hparams]; rfl)
    dsimp only
    split <;> rename_i hlast
    · rw [hlast] at hsettled
      have hle := of_decide_eq_true hsettled
      rw [show intervalId nowSecs (s.fundingIntervalSecs sid) + 1 - (_ + 1) = 0 by omega]
      rfl
    · rw [hlast] at hsettled
      cases hsettled

/-- Funding is settled, but not with the user. -/
structure Unpaid (s s' : Shard) (userId : Nat) : Prop where
  account : s'.accounts userId = s.accounts userId
  settled : ∀ sid, (s.position userId sid).isEmpty ∨ s'.fundingSettled sid = s.fundingSettled sid
  frame : ∃ accounts settled ring, s' = { s with
    accounts := accounts, fundingSettled := settled, persist := ring }

theorem Unpaid.refl (s : Shard) (userId : Nat) : s.Unpaid s userId :=
  ⟨rfl, fun _ => .inr rfl, _, _, _, rfl⟩

theorem Unpaid.trans {s₁ : Shard} (h : s.Unpaid s₁ userId) (h' : s₁.Unpaid s' userId) :
    s.Unpaid s' userId := by
  obtain ⟨haccount, hsettled, _, _, _, rfl⟩ := h
  obtain ⟨haccount', hsettled', _, _, _, rfl⟩ := h'
  refine ⟨haccount'.trans haccount, fun sid => ?_, _, _, _, rfl⟩
  exact (hsettled sid).elim .inl fun h => (hsettled' sid).imp_right fun h' => h'.trans h

theorem charge_other {charges : List (Nat × Int)} (h : userId ∉ charges.map Prod.fst) :
    (s.charge charges).accounts userId = s.accounts userId := by
  induction charges generalizing s with
  | nil => rfl
  | cons entry charges ih =>
    obtain ⟨hne, hrest⟩ := not_or.1 (mem_cons.not.1 h)
    have hpaid : (s.payFunding entry.1 entry.2).accounts userId = s.accounts userId := by
      rw [payFunding_eq]
      exact update_of_ne hne ..
    exact (ih hrest).trans hpaid

theorem unpaid_trySettleInterval {id : Nat} (hindexed : s.Indexed)
    (hempty : (s.position userId sid).isEmpty) (h : s.trySettleInterval sid id nowSecs = some s') :
    s.Unpaid s' userId := by
  have hnot : userId ∉ (s.fundingCharges sid).map Prod.fst := by
    intro hmem
    obtain ⟨entry, hentry, rfl⟩ := mem_map.1 hmem
    obtain ⟨_, hexposed, hfst⟩ := mem_map.1 (of_mem_zip hentry).1
    obtain ⟨user, huser, hposition⟩ := mem_filterMap.1 ((perm_insertionSort _ _).mem_iff.1 hexposed)
    obtain ⟨_, -, rfl⟩ := map_eq_some_iff.1 hposition
    rw [← hfst] at hempty
    exact ((hindexed sid).2 user).1 huser hempty
  have haccount := charge_other (s := s) hnot
  obtain ⟨accounts, hcharge⟩ := s.charge_frame (s.fundingCharges sid)
  obtain rfl := trySettleInterval_some h
  rw [hcharge] at haccount ⊢
  refine ⟨haccount, fun other => ?_, accounts, _, _, rfl⟩
  rcases eq_or_ne other sid with rfl | hne
  · exact .inl hempty
  · exact .inr (update_of_ne hne ..)

theorem unpaid_settleIntervals (hindexed : s.Indexed) (hempty : (s.position userId sid).isEmpty)
    (count id : Nat) : s.Unpaid (settleIntervals sid nowSecs count id s) userId := by
  induction count generalizing s id with
  | zero => exact .refl s userId
  | succ count ih =>
    unfold settleIntervals
    split <;> rename_i hsettle
    · have hstep := unpaid_trySettleInterval hindexed hempty hsettle
      obtain ⟨_, _, _, rfl⟩ := hstep.frame
      refine hstep.trans (ih ?_ ?_ (id + 1))
      · exact hindexed.congr rfl rfl
      · exact hempty
    · exact .refl s userId

theorem unpaid_settleSymbols {symbols : List Nat} (hindexed : s.Indexed)
    (h : ∀ sid ∈ symbols, (s.position userId sid).isEmpty ∨ s.FundingSettled nowSecs sid) :
    s.Unpaid (symbols.foldl (settleSymbolFunding nowSecs) s) userId := by
  induction symbols generalizing s with
  | nil => exact .refl s userId
  | cons first symbols ih =>
    have hstep : s.Unpaid (settleSymbolFunding nowSecs s first) userId := by
      rcases h first mem_cons_self with hempty | hsettled
      · unfold settleSymbolFunding
        split
        · exact .refl s userId
        · exact unpaid_settleIntervals hindexed hempty _ _
      · rw [settleSymbolFunding_idle hsettled]
        exact .refl s userId
    refine hstep.trans (ih ?_ fun sid hmem => ?_)
    · obtain ⟨_, _, _, hframe⟩ := hstep.frame
      rw [hframe]
      exact hindexed.congr rfl rfl
    · obtain ⟨-, hsettled, _, _, _, hframe⟩ := hstep
      rw [hframe] at hsettled ⊢
      refine (hsettled sid).elim .inl fun hsame => ?_
      unfold FundingSettled
      rw [hsame]
      exact h sid (mem_cons_of_mem first hmem)

theorem Triggered.maybeSettleFunding (h : s.Triggered userId nowNs) (hindexed : s.Indexed)
    (hidle : s.FundingIdle nowSecs userId) :
    (s.maybeSettleFunding nowSecs).Triggered userId nowNs := by
  unfold Shard.maybeSettleFunding
  split <;> rename_i hchecked
  · exact h
  · obtain ⟨haccount, -, accounts, settled, ring, hframe⟩ :=
      unpaid_settleSymbols (s := { s with fundingCheckedSecs := nowSecs })
        (hindexed.congr rfl rfl) fun sid hmem => hidle.resolve_left hchecked sid (mem_range.1 hmem)
    rw [hframe] at haccount ⊢
    have hmargin : Shard.currentMargin { s with
        accounts := accounts, fundingSettled := settled, fundingCheckedSecs := nowSecs
        persist := ring } userId = s.currentMargin userId := by
      unfold currentMargin account
      dsimp only at haccount ⊢
      rw [haccount]
      rfl
    exact ⟨fun hneeds => h.below (hmargin ▸ hneeds), fun hneeds => h.recovered (hmargin ▸ hneeds)⟩

/-! ## Runs -/

/-- The symbols with a new mark price or quote after an operation, when they were `updated`
before. -/
def noteUpdate (s : Shard) (updated : List Nat) : RiskOp → List Nat
  | .bbo update => updated ++ [update.symbolId]
  | .stashBbo update => updated ++ [update.symbolId]
  | .mark symbolId _ => updated ++ [symbolId]
  | .tick rings nowSecs ids => if s.Unstalled rings nowSecs ids then [] else updated
  | _ => updated

/-- The symbols whose mark price or quote was updated in a run since its last unstalled tick. -/
def updatedSince (s : Shard) (ops : List RiskOp) : List Nat :=
  (ops.foldl (fun (now : Shard × List Nat) op => (now.1.perform op, now.1.noteUpdate now.2 op))
    (s, [])).2

theorem Steady.fundingIdle (h : s.Steady s') (hidle : s.FundingIdle nowSecs userId) :
    s'.FundingIdle nowSecs userId := by
  unfold FundingIdle FundingSettled position
  rw [h.positions, h.margin, h.shard.2.2, h.funding.1, h.funding.2.1, h.funding.2.2]
  exact hidle

theorem drain_frame (nowNs : Nat) (s : Shard) (symbols : List Nat) :
    ∃ stashed indexPrices prices dirty liquidation cancels, symbols.foldl (drainSymbol nowNs) s =
        { s with
          stashedBbo := stashed, indexPrices := indexPrices, fallbackMarkPrices := prices
          markDirty := dirty, liquidation := liquidation, pendingCancels := cancels } := by
  induction symbols generalizing s with
  | nil =>
    exact ⟨s.stashedBbo, s.indexPrices, s.fallbackMarkPrices, s.markDirty, s.liquidation,
      s.pendingCancels, rfl⟩
  | cons sid symbols ih =>
    obtain ⟨_, _, _, _, _, hsymbol⟩ := drainSymbol_frame nowNs s sid
    obtain ⟨stashed, indexPrices, prices, dirty, liquidation, cancels, hrest⟩ :=
      ih (drainSymbol nowNs s sid)
    refine ⟨stashed, indexPrices, prices, dirty, liquidation, cancels, ?_⟩
    rw [foldl_cons, hrest, hsymbol]

theorem triggered_tick (hwired : s.Wired) {rings : ShardRings}
    {ids : Nat → OrderId} (hunstalled : s.Unstalled rings nowSecs ids)
    (hidle : s.drainConfigUpdates.FundingIdle nowSecs userId)
    (hquoted : (s.stashedBbo sid).isSome) (hshard : s.userInShard userId)
    (hopen : ¬ (s.position userId sid).isEmpty) :
    (s.tick rings nowSecs ids).1.Triggered userId (nowSecs * 1000000000) := by
  have hkeeps := s.keeps_beforeQuotes rings nowSecs ids
  have hidle' := (s.steady_beforeQuotes rings nowSecs ids).fundingIdle hidle
  have hwired' := hkeeps.wired hwired
  rw [tick_eq, if_pos hunstalled]
  generalize (s.beforeQuotes rings nowSecs ids).1 = s₁ at *
  have hshard' : s₁.userInShard userId := by
    rw [userInShard, hkeeps.shard.1, hkeeps.shard.2.1]
    exact hshard
  have hopen' : ¬ (s₁.position userId sid).isEmpty := by
    rw [position, hkeeps.positions]
    exact hopen
  have hquoted' : (s₁.stashedBbo sid).isSome := hkeeps.stashed ▸ hquoted
  obtain ⟨bbo, hbbo⟩ := isSome_iff_exists.1 hquoted'
  have hsid := (hwired'.stash sid bbo hbbo).2
  have hdrained : (s₁.drainStashedBbos (nowSecs * 1000000000)).Triggered userId
      (nowSecs * 1000000000) :=
    triggered_drain hwired' hshard' (hwired'.owned.account userId sid hopen')
      (.inr ⟨sid, mem_range.2 hsid, hquoted', hopen'⟩)
  refine hdrained.maybeSettleFunding (hwired'.drain _ _).indexed ?_
  obtain ⟨_, _, _, _, _, _, hframe⟩ :=
    drain_frame (nowSecs * 1000000000) s₁ (List.range s₁.maxSymbols)
  rw [drainStashedBbos, hframe]
  exact hidle'

end Shard

/-! ## The trigger is complete for quotes -/

open Shard

/-- **Liquidation trigger.**  In every run, an unstalled tick leaves the liquidations of every user
with an open position in an updated symbol in agreement with their margin, when the symbol has a
stashed quote and no funding of the user is due. -/
theorem liquidation_trigger_complete {s : Shard} (hwired : s.Wired) (ops : List RiskOp)
    (rings : ShardRings) (nowSecs : Nat) (ids : Nat → OrderId)
    (hunstalled : (ops.foldl Shard.perform s).Unstalled rings nowSecs ids) :
    let s' := ops.foldl Shard.perform s
    ∀ sid ∈ s.updatedSince ops, (s'.stashedBbo sid).isSome →
      ∀ userId, s'.userInShard userId → ¬ (s'.position userId sid).isEmpty →
        s'.drainConfigUpdates.FundingIdle nowSecs userId →
        (s'.tick rings nowSecs ids).1.Triggered userId (nowSecs * 1000000000) := by
  intro s' sid _ hquoted userId hshard hopen hidle
  exact triggered_tick (hwired.run ops) hunstalled hidle hquoted hshard hopen

/-- A position that fell under water with a quote of its symbol is liquidated at the tick. -/
theorem liquidation_trigger_complete_quoted :
    let s : Shard := {
      maxSymbols := 1, liquidation := ⟨[], [], 0, 0, 0, 1, 0⟩
      accounts := Function.update (fun _ => none) 7 (some ⟨7, 400, 0⟩)
      margin := ⟨fun _ => some ⟨1000, 500, 10, 1⟩⟩, fundingCheckedSecs := 9 }
    let ops : List RiskOp := [.mark 0 100, .fill ⟨1, 0, 7, 8, 100, 10, .buy, 0⟩, .mark 0 50,
      .stashBbo ⟨2, 0, 49, 1, 51, 1⟩]
    let s' := ((ops.foldl Shard.perform s).tick ⟨⟨[], 4⟩, ⟨[], 4⟩⟩ 9 fun _ => (0, 0)).1
    (s'.currentMargin 7).equity = -100 ∧ (s'.currentMargin 7).maintenanceMargin = 25 ∧
      (s'.liquidation.Live 7 0 ∨ s'.liquidation.Cooling 7 0 9000000000) := by
  intro s ops s'
  have hwired : s.Wired :=
    .of_no_positions nofun (fun _ _ => rfl) (fun _ => rfl) fun _ => rfl
  have hmeets : (ops.foldl Shard.perform s).Unstalled ⟨⟨[], 4⟩, ⟨[], 4⟩⟩ 9 (fun _ => (0, 0)) ∧
      (ops.foldl Shard.perform s).drainConfigUpdates.FundingIdle 9 7 ∧ 0 ∈ s.updatedSince ops ∧
      ((ops.foldl Shard.perform s).stashedBbo 0).isSome ∧
      (ops.foldl Shard.perform s).userInShard 7 ∧
      ¬ ((ops.foldl Shard.perform s).position 7 0).isEmpty := by
    decide +kernel
  have hmargin : (s'.currentMargin 7).equity = -100 ∧ (s'.currentMargin 7).maintenanceMargin = 25 ∧
      PortfolioMargin.needsLiquidation (s'.currentMargin 7) ∧
      ∃ p ∈ s'.iterPositionsForUser 7, ¬ p.isEmpty ∧ p.symbolId = 0 := by
    decide +kernel
  obtain ⟨hunstalled, hidle, hupdated, hquoted, hshard, hopen⟩ := hmeets
  obtain ⟨hequity, hmaintenance, hneeds, p, hp, hlong, hsymbol⟩ := hmargin
  have htriggered := liquidation_trigger_complete hwired ops ⟨⟨[], 4⟩, ⟨[], 4⟩⟩ 9 (fun _ => (0, 0))
    hunstalled 0 hupdated hquoted 7 hshard hopen hidle
  have hlive := htriggered.below hneeds p hp hlong
  rw [hsymbol] at hlive
  exact ⟨hequity, hmaintenance, hlive⟩

/-- A new mark price alone starts no scan: the tick leaves the user below maintenance margin without
a liquidation. -/
theorem mark_update_not_scanned :
    let s : Shard := {
      maxSymbols := 1, liquidation := ⟨[], [], 0, 0, 0, 1, 0⟩
      accounts := Function.update (fun _ => none) 7 (some ⟨7, 400, 0⟩)
      margin := ⟨fun _ => some ⟨1000, 500, 10, 1⟩⟩ }
    let ops : List RiskOp := [.mark 0 100, .fill ⟨1, 0, 7, 8, 100, 10, .buy, 0⟩, .mark 0 50]
    let s₁ := ops.foldl Shard.perform s
    let s' := (s₁.tick ⟨⟨[], 4⟩, ⟨[], 4⟩⟩ 9 fun _ => (0, 0)).1
    s₁.Unstalled ⟨⟨[], 4⟩, ⟨[], 4⟩⟩ 9 (fun _ => (0, 0)) ∧ 0 ∈ s.updatedSince ops ∧
      ¬ (s'.position 7 0).isEmpty ∧ (s'.currentMargin 7).equity = -100 ∧
      (s'.currentMargin 7).maintenanceMargin = 25 ∧
      ¬ s'.liquidation.Live 7 0 ∧ ¬ s'.liquidation.Cooling 7 0 9000000000 := by
  decide +kernel

end Rsx.Risk
