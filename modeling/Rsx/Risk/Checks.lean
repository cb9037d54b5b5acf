import Rsx.Risk.Equity

/-!
# Liquidation checks

What `check_liquidation_for` decides and whom it touches: below maintenance margin every open symbol
of the user is under liquidation or in the pause after a socialized loss, otherwise none is; the
entries and cancels of other users stay.  -/

namespace Rsx.Risk

open Book List PortfolioMargin

namespace LiquidationEngine

variable {l : LiquidationEngine} {userId symbolId nowNs : Nat}

def Live (l : LiquidationEngine) (userId symbolId : Nat) : Prop :=
  ∃ entry ∈ l.active, entry.userId = userId ∧ entry.symbolId = symbolId ∧ entry.status ≠ .done
  deriving Decidable

def Cooling (l : LiquidationEngine) (userId symbolId nowNs : Nat) : Prop :=
  ∃ pause ∈ l.socializedCooldown,
    pause.userId = userId ∧ pause.symbolId = symbolId ∧ nowNs < pause.retryAtNs
  deriving Decidable

/-- The entries of other users and all pauses are the same. -/
structure Spares (l l' : LiquidationEngine) (userId nowNs : Nat) : Prop where
  entries : ∀ entry : LiquidationState, entry.userId ≠ userId →
    (entry ∈ l'.active ↔ entry ∈ l.active)
  cooling : ∀ other symbolId, l'.Cooling other symbolId nowNs ↔ l.Cooling other symbolId nowNs

theorem Spares.refl (l : LiquidationEngine) (userId nowNs : Nat) : l.Spares l userId nowNs :=
  ⟨fun _ _ => Iff.rfl, fun _ _ => Iff.rfl⟩

theorem Spares.trans {l₁ l₂ : LiquidationEngine} (h : l.Spares l₁ userId nowNs)
    (h' : l₁.Spares l₂ userId nowNs) : l.Spares l₂ userId nowNs :=
  ⟨fun entry hne => (h'.entries entry hne).trans (h.entries entry hne),
    fun other symbolId => (h'.cooling other symbolId).trans (h.cooling other symbolId)⟩

theorem Spares.live {l' : LiquidationEngine} {other : Nat} (h : l.Spares l' userId nowNs)
    (hne : other ≠ userId) (symbolId : Nat) :
    l'.Live other symbolId ↔ l.Live other symbolId := by
  have hentry : ∀ entry : LiquidationState, entry.userId = other →
      (entry ∈ l'.active ↔ entry ∈ l.active) :=
    fun entry huser => h.entries entry (huser ▸ hne)
  constructor <;> rintro ⟨entry, hmem, huser, hrest⟩
  · exact ⟨entry, (hentry entry huser).1 hmem, huser, hrest⟩
  · exact ⟨entry, (hentry entry huser).2 hmem, huser, hrest⟩

theorem enqueue_spec (l : LiquidationEngine) (userId symbolId nowNs : Nat) :
    l.Spares (l.enqueue userId symbolId nowNs).1 userId nowNs ∧
      l.active ⊆ (l.enqueue userId symbolId nowNs).1.active ∧
      ((l.enqueue userId symbolId nowNs).1.Live userId symbolId ∨
        (l.enqueue userId symbolId nowNs).1.Cooling userId symbolId nowNs) := by
  have hcooling : ∀ other symbol, (∃ pause ∈ l.socializedCooldown.filter (nowNs < ·.retryAtNs),
      pause.userId = other ∧ pause.symbolId = symbol ∧ nowNs < pause.retryAtNs) ↔
        l.Cooling other symbol nowNs := by
    intro other symbol
    simp only [Cooling, mem_filter, decide_eq_true_eq]
    constructor
    · rintro ⟨pause, ⟨hmem, -⟩, hrest⟩
      exact ⟨pause, hmem, hrest⟩
    · rintro ⟨pause, hmem, huser, hsymbol, hlt⟩
      exact ⟨pause, ⟨hmem, hlt⟩, huser, hsymbol, hlt⟩
  unfold enqueue
  dsimp only
  split_ifs with hpaused hlive
  · refine ⟨⟨fun _ _ => Iff.rfl, hcooling⟩, Subset.refl _, .inr ?_⟩
    obtain ⟨pause, hmem, hpause⟩ := any_eq_true.1 hpaused
    obtain ⟨huser, hsymbol⟩ := of_decide_eq_true hpause
    exact ⟨pause, hmem, huser, hsymbol, of_decide_eq_true (mem_filter.1 hmem).2⟩
  · refine ⟨⟨fun _ _ => Iff.rfl, hcooling⟩, Subset.refl _, .inl ?_⟩
    obtain ⟨entry, hmem, hentry⟩ := any_eq_true.1 hlive
    exact ⟨entry, hmem, of_decide_eq_true hentry⟩
  · refine ⟨⟨fun entry hne => ?_, hcooling⟩, subset_append_left .., .inl ?_⟩
    · rw [mem_append, mem_singleton]
      refine or_iff_left ?_
      rintro rfl
      exact hne rfl
    · refine ⟨_, mem_append_right _ mem_cons_self, rfl, rfl, ?_⟩
      intro hdone
      cases hdone

theorem cancelIfRecovered_spec (l : LiquidationEngine) (userId symbolId nowNs : Nat) :
    l.Spares (l.cancelIfRecovered userId symbolId) userId nowNs ∧
      (l.cancelIfRecovered userId symbolId).active ⊆ l.active ∧
      ¬ (l.cancelIfRecovered userId symbolId).Live userId symbolId := by
  refine ⟨⟨fun entry hne => ?_, fun _ _ => Iff.rfl⟩, filter_subset_self _, ?_⟩
  · unfold cancelIfRecovered
    simp [hne]
  · rintro ⟨_, hmem, huser, hsymbol, -⟩
    have hkept := (mem_filter.1 hmem).2
    simp [huser, hsymbol] at hkept

end LiquidationEngine

namespace Shard

variable {userId nowNs : Nat} {positions : List Position} {acc : LiquidationEngine × Bool}

/-! ## The loop over the symbols -/

theorem foldl_enqueue (positions : List Position) (acc : LiquidationEngine × Bool)
    (userId nowNs : Nat) :
    let l' := (positions.foldl (enqueueOrCancel true userId nowNs) acc).1
    (acc.1.Spares l' userId nowNs ∧ acc.1.active ⊆ l'.active) ∧
      ∀ p ∈ positions, ¬ p.isEmpty → l'.Live userId p.symbolId ∨
      l'.Cooling userId p.symbolId nowNs := by
  refine foldl_reaches
    (R := fun a b => a.1.Spares b.1 userId nowNs ∧ a.1.active ⊆ b.1.active)
    (Q := fun p a => ¬ p.isEmpty →
      a.1.Live userId p.symbolId ∨ a.1.Cooling userId p.symbolId nowNs)
    (fun _ => ⟨.refl _ _ _, Subset.refl _⟩) (fun h h' => ⟨h.1.trans h'.1, Subset.trans h.2 h'.2⟩)
    (fun acc p => ?_) (fun hreaches hcovered hopen => ?_) positions acc
  · unfold enqueueOrCancel
    split <;> rename_i hempty
    · exact ⟨⟨.refl _ _ _, Subset.refl _⟩, absurd hempty⟩
    · rw [if_pos rfl]
      obtain ⟨hspares, hgrow, hnew⟩ := acc.1.enqueue_spec userId p.symbolId nowNs
      exact ⟨⟨hspares, hgrow⟩, fun _ => hnew⟩
  · refine (hcovered hopen).imp ?_ (hreaches.1.cooling _ _).2
    rintro ⟨entry, hmem, hentry⟩
    exact ⟨entry, hreaches.2 hmem, hentry⟩

theorem foldl_cancel (positions : List Position) (acc : LiquidationEngine × Bool)
    (userId nowNs : Nat) :
    let scan := positions.foldl (enqueueOrCancel false userId nowNs) acc
    (acc.1.Spares scan.1 userId nowNs ∧ scan.1.active ⊆ acc.1.active ∧ scan.2 = acc.2) ∧
      ∀ p ∈ positions, ¬ p.isEmpty → ¬ scan.1.Live userId p.symbolId := by
  refine foldl_reaches
    (R := fun a b : LiquidationEngine × Bool =>
      a.1.Spares b.1 userId nowNs ∧ b.1.active ⊆ a.1.active ∧ b.2 = a.2)
    (Q := fun p a => ¬ p.isEmpty → ¬ a.1.Live userId p.symbolId)
    (fun _ => ⟨.refl _ _ _, Subset.refl _, rfl⟩)
    (fun h h' => ⟨h.1.trans h'.1, Subset.trans h'.2.1 h.2.1, h'.2.2.trans h.2.2⟩)
    (fun acc p => ?_) (fun hreaches hnone hopen => ?_) positions acc
  · unfold enqueueOrCancel
    split <;> rename_i hempty
    · exact ⟨⟨.refl _ _ _, Subset.refl _, rfl⟩, absurd hempty⟩
    · rw [if_neg Bool.false_ne_true]
      obtain ⟨hspares, hshrink, hgone⟩ := acc.1.cancelIfRecovered_spec userId p.symbolId nowNs
      exact ⟨⟨hspares, hshrink, rfl⟩, fun _ => hgone⟩
  · rintro ⟨entry, hmem, hentry⟩
    exact hnone hopen ⟨entry, hreaches.2.1 hmem, hentry⟩

/-! ## A check -/

variable {s s' : Shard}

/-- The liquidations and cancels of other users are the same. -/
structure Spares (s s' : Shard) (userId nowNs : Nat) : Prop where
  engine : s.liquidation.Spares s'.liquidation userId nowNs
  cancels : ∀ other, other ≠ userId →
    s'.pendingCancels.filter (·.userId = other) = s.pendingCancels.filter (·.userId = other)

theorem filter_queueCancels (s : Shard) (userId : Nat) {other : Nat} (hne : other ≠ userId) :
    (s.queueCancels userId).pendingCancels.filter (·.userId = other) =
      s.pendingCancels.filter (·.userId = other) := by
  unfold queueCancels
  rw [filter_append]
  refine (congrArg _ (filter_eq_nil_iff.2 fun cancel hmem => ?_)).trans (append_nil _)
  obtain ⟨⟨_, _⟩, -, hcancel⟩ := mem_filterMap.1 hmem
  dsimp only at hcancel
  split at hcancel
  · split at hcancel
    · cases hcancel
    · cases hcancel
      simpa using hne.symm
  · cases hcancel

/-- The outcome of a check that found the margin `margin`. -/
def Scanned (s s' : Shard) (userId nowNs : Nat) (margin : MarginState) : Prop :=
  s.Spares s' userId nowNs ∧
    if needsLiquidation margin then
      ∀ p ∈ s.iterPositionsForUser userId, ¬ p.isEmpty →
        s'.liquidation.Live userId p.symbolId ∨ s'.liquidation.Cooling userId p.symbolId nowNs
    else
      s'.liquidation.active ⊆ s.liquidation.active ∧ s'.pendingCancels = s.pendingCancels ∧
        ∀ p ∈ s.iterPositionsForUser userId, ¬ p.isEmpty → ¬ s'.liquidation.Live userId p.symbolId

theorem scanUser_spec (s : Shard) (userId nowNs : Nat) (account : Account) :
    s.Scanned (s.scanUser userId nowNs account) userId nowNs (s.marginState userId account) := by
  unfold Scanned scanUser
  dsimp only
  cases hneeds : needsLiquidation (s.marginState userId account) with
  | true =>
    obtain ⟨⟨hspares, -⟩, hcovered⟩ :=
      foldl_enqueue (s.iterPositionsForUser userId) (s.liquidation, false) userId nowNs
    split
    · exact ⟨⟨hspares, fun other hne => filter_queueCancels _ userId hne⟩, hcovered⟩
    · exact ⟨⟨hspares, fun _ _ => rfl⟩, hcovered⟩
  | false =>
    obtain ⟨⟨hspares, hsubset, hflag⟩, hnone⟩ :=
      foldl_cancel (s.iterPositionsForUser userId) (s.liquidation, false) userId nowNs
    rw [if_neg (by rw [hflag]; exact Bool.false_ne_true)]
    exact ⟨⟨hspares, fun _ _ => rfl⟩, hsubset, rfl, hnone⟩

/-- **A check.**  With fresh prices, the decision is that of the current margin. -/
theorem checkLiquidationFor_spec (hshard : s.userInShard userId) (hcached : s.PricesCached)
    (haccount : s.accounts userId ≠ none) (nowNs : Nat) :
    s.Scanned (s.checkLiquidationFor userId nowNs) userId nowNs (s.currentMargin userId) := by
  have hprices := fallback_freshPrices hcached
  obtain ⟨_, _, hfresh⟩ := freshPrices_eq s
  rcases s.checkLiquidationFor_cases userId nowNs with ⟨-, h⟩ | ⟨-, h⟩ | ⟨account, hcheck, hsome, -⟩
  · exact absurd hshard h
  · exact absurd h haccount
  have hmargin : s.freshPrices.marginState userId account = s.currentMargin userId := by
    unfold marginState currentMargin Shard.account
    rw [hprices, hsome, hfresh]
    rfl
  have hspec := s.freshPrices.scanUser_spec userId nowNs account
  rw [hmargin, ← hcheck, hfresh] at hspec
  exact ⟨⟨hspec.1.engine, hspec.1.cancels⟩, hspec.2⟩

theorem spares_checkLiquidationFor (s : Shard) (userId nowNs : Nat) :
    s.Spares (s.checkLiquidationFor userId nowNs) userId nowNs := by
  obtain ⟨_, _, hfresh⟩ := freshPrices_eq s
  rcases s.checkLiquidationFor_cases userId nowNs with ⟨h, -⟩ | ⟨h, -⟩ | ⟨account, h, -⟩
  · rw [h]
    exact ⟨.refl _ _ _, fun _ _ => rfl⟩
  · rw [h, hfresh]
    exact ⟨.refl _ _ _, fun _ _ => rfl⟩
  · have hspec := (s.freshPrices.scanUser_spec userId nowNs account).1
    rw [← h, hfresh] at hspec
    exact ⟨hspec.engine, hspec.cancels⟩

theorem PricesCached.congr (h : s.PricesCached) (hmarks : s'.markPrices = s.markPrices)
    (hindex : s'.indexPrices = s.indexPrices)
    (hcache : s'.fallbackMarkPrices = s.fallbackMarkPrices)
    (hdirty : s'.markDirty = s.markDirty) : s'.PricesCached := by
  have hprice : s'.fallbackPrice = s.fallbackPrice := by
    funext symbolId
    rw [fallbackPrice, hmarks, hindex]
    rfl
  intro hclean
  rw [hcache, hprice]
  exact h (hdirty ▸ hclean)

theorem PricesCached.freshPrices (h : s.PricesCached) : s.freshPrices.PricesCached := by
  unfold Shard.freshPrices
  split
  · exact fun _ => rfl
  · exact h

theorem checkLiquidationFor_keeps (h : s.PricesCached) (userId nowNs : Nat) :
    (s.checkLiquidationFor userId nowNs).PricesCached ∧
      ∀ other, (s.checkLiquidationFor userId nowNs).currentMargin other =
        s.currentMargin other := by
  obtain ⟨_, _, liquidation, cancels, hcheck⟩ := checkLiquidationFor_eq s userId nowNs
  refine ⟨?_, fun other => by rw [hcheck]; rfl⟩
  rcases s.checkLiquidationFor_cases userId nowNs with ⟨heq, -⟩ | ⟨heq, -⟩ | ⟨account, heq, -⟩
  · rw [heq]
    exact h
  · rw [heq]
    exact h.freshPrices
  · obtain ⟨_, _, hscan⟩ := scanUser_eq s.freshPrices userId nowNs account
    rw [heq, hscan]
    exact h.freshPrices.congr rfl rfl rfl rfl

/-! ## Users who are not liquidated -/

/-- No liquidation of the user is started and no cancel is queued for them. -/
structure Quiet (s s' : Shard) (userId : Nat) : Prop where
  entries : ∀ entry ∈ s'.liquidation.active, entry.userId = userId → entry ∈ s.liquidation.active
  cancels : s'.pendingCancels.filter (·.userId = userId) =
    s.pendingCancels.filter (·.userId = userId)

theorem Quiet.refl (s : Shard) (userId : Nat) : s.Quiet s userId :=
  ⟨fun _ hmem _ => hmem, rfl⟩

theorem Quiet.trans {s₁ s₂ : Shard} (h : s.Quiet s₁ userId) (h' : s₁.Quiet s₂ userId) :
    s.Quiet s₂ userId :=
  ⟨fun entry hmem huser => h.entries entry (h'.entries entry hmem huser) huser,
    h'.cancels.trans h.cancels⟩

def Safe (s : Shard) (userId : Nat) : Prop :=
  needsLiquidation (s.currentMargin userId) = false

theorem quiet_checkLiquidationFor (hcached : s.PricesCached) (hsafe : s.Safe userId)
    (other nowNs : Nat) : s.Quiet (s.checkLiquidationFor other nowNs) userId := by
  rcases eq_or_ne userId other with rfl | hne
  · obtain ⟨_, _, hfresh⟩ := freshPrices_eq s
    rcases s.checkLiquidationFor_cases userId nowNs with ⟨h, -⟩ | ⟨h, -⟩ | ⟨_, -, hsome, hshard⟩
    · rw [h]
      exact .refl s userId
    · rw [h, hfresh]
      exact ⟨fun _ hmem _ => hmem, rfl⟩
    · have hspec := checkLiquidationFor_spec hshard hcached (by simp [hsome]) nowNs
      rw [Scanned, hsafe] at hspec
      obtain ⟨-, hsubset, hcancels, -⟩ := hspec
      exact ⟨fun entry hmem _ => hsubset hmem, by rw [hcancels]⟩
  · have hspares := s.spares_checkLiquidationFor other nowNs
    refine ⟨fun entry hmem huser => ?_, hspares.cancels userId hne⟩
    exact (hspares.engine.entries entry (huser ▸ hne)).1 hmem

theorem quiet_foldl_check (users : List Nat) (hcached : s.PricesCached) (hsafe : s.Safe userId)
    (nowNs : Nat) :
    s.Quiet (users.foldl (fun s other => s.checkLiquidationFor other nowNs) s) userId := by
  induction users generalizing s with
  | nil => exact .refl s userId
  | cons other users ih =>
    obtain ⟨hcached', hmargin⟩ := checkLiquidationFor_keeps hcached other nowNs
    have hsafe' : (s.checkLiquidationFor other nowNs).Safe userId := by
      rw [Safe, hmargin]
      exact hsafe
    exact (quiet_checkLiquidationFor hcached hsafe other nowNs).trans (ih hcached' hsafe')

end Shard

end Rsx.Risk
