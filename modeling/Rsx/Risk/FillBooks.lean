import Rsx.Lib.Streams
import Rsx.Risk.Ingest

/-!
# The books of a list of fills

What positions and accounts are for: the position of a user in a symbol is the fold of the fills of
the symbol, the account of a user the fold of the fees they were charged, at the rates of the time.
The order of fills of different symbols does not matter while no account saturates.  -/

namespace Rsx.Risk

open Function Book List

namespace Shard

variable {s s₀ : Shard} {userId symbolId : Nat} {fill : FillEvent} {fills fills' : List FillEvent}
  {charged charged' : Nat → List Int} {log : List MeRecord} {s' s₁ s₂ : Shard}

/-! ## Booked positions and accounts -/

def legsIn (s : Shard) (userId symbolId : Nat) (fill : FillEvent) : List Leg :=
  if s.userInShard userId then legsOf userId symbolId fill else []

def feesIn (s : Shard) (userId : Nat) (fill : FillEvent) : List Int :=
  if s.userInShard userId then s.feesOf userId fill else []

def bookedPosition (s : Shard) (fills : List FillEvent) (userId symbolId : Nat) : Position :=
  fills.foldl (fun p fill => p.applyLegs fill.seq (s.legsIn userId symbolId fill))
    { userId := userId, symbolId := symbolId }

def chargesIn (s : Shard) (fills : List FillEvent) (userId : Nat) : List Int :=
  fills.flatMap (s.feesIn userId)

def bookedAccount (charged : Nat → List Int) (userId : Nat) : Account :=
  (charged userId).foldl Account.deductFee ⟨userId, 0, 0⟩

/-- The shards count the same users and symbols. -/
structure SameShard (s s' : Shard) : Prop where
  users : s'.userInShard = s.userInShard
  symbols : s'.maxSymbols = s.maxSymbols

def SameFees (s s' : Shard) : Prop :=
  s'.takerFeeBps = s.takerFeeBps ∧ s'.makerFeeBps = s.makerFeeBps

theorem SameShard.trans (h : s.SameShard s₁) (h' : s₁.SameShard s₂) : s.SameShard s₂ :=
  ⟨h'.users.trans h.users, h'.symbols.trans h.symbols⟩

theorem SameShard.symm (h : s.SameShard s') : s'.SameShard s :=
  ⟨h.users.symm, h.symbols.symm⟩

theorem SameFees.trans (h : s.SameFees s₁) (h' : s₁.SameFees s₂) : s.SameFees s₂ :=
  ⟨h'.1.trans h.1, h'.2.trans h.2⟩

theorem SameShard.legsIn_eq (h : s.SameShard s') : s'.legsIn = s.legsIn := by
  funext userId symbolId fill
  rw [legsIn, legsIn, h.users]

theorem SameShard.chargesIn_eq (h : s.SameShard s') (hfees : s.SameFees s') :
    s'.chargesIn = s.chargesIn := by
  funext fills userId
  refine congrArg fills.flatMap (funext fun fill => ?_)
  rw [feesIn, feesIn, h.users, feesOf, feesOf, hfees.1, hfees.2]

theorem chargesIn_append (s : Shard) (fills fills' : List FillEvent) (userId : Nat) :
    s.chargesIn (fills ++ fills') userId = s.chargesIn fills userId ++ s.chargesIn fills' userId :=
  flatMap_append

/-- The shard has booked the fills and taken the fees.  The users and symbols are those of `s₀`. -/
structure Booked (s₀ s : Shard) (fills : List FillEvent) (charged : Nat → List Int) : Prop where
  shard : s₀.SameShard s
  positions : ∀ userId symbolId,
    s.position userId symbolId = s₀.bookedPosition fills userId symbolId
  accounts : ∀ userId, s.account userId = bookedAccount charged userId

theorem bookedPosition_snoc (s : Shard) (fills : List FillEvent) (fill : FillEvent)
    (userId symbolId : Nat) : s.bookedPosition (fills ++ [fill]) userId symbolId =
      (s.bookedPosition fills userId symbolId).applyLegs fill.seq (s.legsIn userId symbolId fill) :=
  foldl_append

/-! ## Fills that do not count -/

def Counts (s : Shard) (fill : FillEvent) : Prop :=
  fill.symbolId < s.maxSymbols ∧ (s.userInShard fill.takerUserId ∨ s.userInShard fill.makerUserId)
  deriving Decidable

def partiesIn (s : Shard) (fill : FillEvent) : List Nat :=
  (if s.userInShard fill.takerUserId then [fill.takerUserId] else []) ++
    if s.userInShard fill.makerUserId then [fill.makerUserId] else []

theorem mem_partiesIn : userId ∈ s.partiesIn fill ↔
    s.userInShard userId ∧ (userId = fill.takerUserId ∨ userId = fill.makerUserId) := by
  rw [partiesIn, mem_append, mem_ite_nil_right, mem_ite_nil_right, mem_singleton, mem_singleton]
  constructor
  · rintro (⟨hshard, rfl⟩ | ⟨hshard, rfl⟩)
    · exact ⟨hshard, .inl rfl⟩
    · exact ⟨hshard, .inr rfl⟩
  · rintro ⟨hshard, rfl | rfl⟩
    · exact .inl ⟨hshard, rfl⟩
    · exact .inr ⟨hshard, rfl⟩

theorem notMem_partiesIn (h : ¬ (s.userInShard fill.takerUserId ∨ s.userInShard fill.makerUserId)) :
    userId ∉ s.partiesIn fill := by
  rw [mem_partiesIn]
  rintro ⟨hshard, rfl | rfl⟩
  · exact h (.inl hshard)
  · exact h (.inr hshard)

theorem legsIn_of_not_party (h : userId ∉ s.partiesIn fill) (symbolId : Nat) :
    s.legsIn userId symbolId fill = [] := by
  rw [mem_partiesIn, not_and] at h
  unfold legsIn legsOf
  split_ifs with hshard hsymbol htaker hmaker hmaker
  · exact absurd (.inl htaker.symm) (h hshard)
  · exact absurd (.inl htaker.symm) (h hshard)
  · exact absurd (.inr hmaker.symm) (h hshard)
  · rfl
  · rfl
  · rfl

theorem feesIn_of_not_party (h : userId ∉ s.partiesIn fill) : s.feesIn userId fill = [] := by
  rw [mem_partiesIn, not_and] at h
  unfold feesIn feesOf
  split_ifs with hshard htaker hmaker hmaker
  · exact absurd (.inl htaker.symm) (h hshard)
  · exact absurd (.inl htaker.symm) (h hshard)
  · exact absurd (.inr hmaker.symm) (h hshard)
  · rfl
  · rfl

theorem legsIn_of_ne (h : fill.symbolId ≠ symbolId) : s.legsIn userId symbolId fill = [] := by
  unfold legsIn legsOf
  rw [if_neg h, ite_self]

theorem shard_processFill (s : Shard) (fill : FillEvent) :
    s.SameShard (s.processFill fill) ∧ s.SameFees (s.processFill fill) := by
  obtain ⟨_, _, _, _, _, _, _, _, _, hframe⟩ := s.processFill_frame fill
  rw [hframe]
  exact ⟨⟨rfl, rfl⟩, rfl, rfl⟩

theorem position_processFill_in (hfresh : s.Fresh fill) (userId symbolId : Nat) :
    (s.processFill fill).position userId symbolId =
      (s.position userId symbolId).applyLegs fill.seq (s.legsIn userId symbolId fill) := by
  unfold legsIn
  by_cases hshard : s.userInShard userId
  · rw [if_pos hshard]
    exact position_processFill hshard hfresh
  · rw [if_neg hshard]
    exact position_processFill_of_not hshard fill symbolId

theorem account_processFill_in (hfresh : s.Fresh fill) (userId : Nat) :
    (s.processFill fill).account userId =
      (s.feesIn userId fill).foldl Account.deductFee (s.account userId) := by
  unfold feesIn
  by_cases hshard : s.userInShard userId
  · rw [if_pos hshard]
    exact account_processFill hshard hfresh
  · rw [if_neg hshard]
    obtain ⟨prices, dirty, liquidation, cancels, hfill⟩ := processFill_of_fresh hfresh
    have hleg : ∀ (s : Shard), ¬ s.userInShard userId → ∀ user side fee,
        (s.applyLeg user fill side fee).account userId = s.account userId := by
      intro s hshard user side fee
      rw [applyLeg_eq]
      split_ifs with huser
      · rw [account_bookLeg, if_neg]
        rintro rfl
        exact hshard huser
      · rfl
    rw [hfill]
    refine (hleg _ ?_ _ _ _).trans (hleg s hshard _ _ _)
    rwa [userInShard_applyLeg]

theorem Booked.processFill (h : s₀.Booked s fills charged) (hfresh : s.Fresh fill) :
    s₀.Booked (s.processFill fill) (fills ++ [fill])
      fun userId => charged userId ++ s.feesIn userId fill := by
  refine ⟨h.shard.trans (s.shard_processFill fill).1, fun userId symbolId => ?_, fun userId => ?_⟩
  · rw [position_processFill_in hfresh, h.positions, h.shard.legsIn_eq, bookedPosition_snoc]
  · rw [account_processFill_in hfresh, h.accounts, bookedAccount, bookedAccount, foldl_append]

theorem Booked.foreign (h : s₀.Booked s fills charged) (hfresh : s.Fresh fill)
    (hparty : ∀ userId, userId ∉ s.partiesIn fill) :
    s₀.Booked (s.processFill fill) fills charged := by
  refine ⟨h.shard.trans (s.shard_processFill fill).1, fun userId symbolId => ?_, fun userId => ?_⟩
  · rw [position_processFill_in hfresh, legsIn_of_not_party (hparty userId)]
    exact h.positions userId symbolId
  · rw [account_processFill_in hfresh, feesIn_of_not_party (hparty userId)]
    exact h.accounts userId

/-! ## Records -/

structure BooksKept (s s' : Shard) : Prop extends s.SameShard s' where
  positions : ∀ userId symbolId, s'.position userId symbolId = s.position userId symbolId
  accounts : ∀ userId, s'.account userId = s.account userId
  tips : s'.tips = s.tips

theorem Booked.kept (h : s₀.Booked s fills charged) (hkept : s.BooksKept s') :
    s₀.Booked s' fills charged :=
  ⟨h.shard.trans hkept.toSameShard, fun _ _ => (hkept.positions ..).trans (h.positions ..),
    fun userId => (hkept.accounts userId).trans (h.accounts userId)⟩

end Shard

def MeRecord.fill? (record : MeRecord) : Option FillEvent :=
  match record.body with
  | .fill fill => some (fill.toFillEvent record.symbolId record.seq)
  | _ => none

theorem MeRecord.fill?_ids {record : MeRecord} {fill : FillEvent} (h : record.fill? = some fill) :
    fill.symbolId = record.symbolId ∧ fill.seq = record.seq := by
  unfold fill? at h
  split at h
  · cases h
    exact ⟨rfl, rfl⟩
  · cases h

namespace Shard

variable {s s₀ : Shard} {fills : List FillEvent} {charged : Nat → List Int}

/-- A way to take in records: a fill is processed, the others leave the books and the rates
alone. -/
structure Ingests (step : Shard → MeRecord → Shard) : Prop where
  fill : ∀ (s : Shard) {record : MeRecord} {fill : FillEvent}, record.fill? = some fill →
    step s record = s.processFill fill
  other : ∀ (s : Shard) {record : MeRecord}, record.fill? = none →
    s.BooksKept (step s record) ∧ s.SameFees (step s record)

/-! ## The fills of a log -/

def fillsOf (s : Shard) (log : List MeRecord) : List FillEvent :=
  (log.filterMap MeRecord.fill?).filter fun fill => s.Counts fill

def Ascending (log : List MeRecord) : Prop :=
  log.Pairwise fun a b => a.symbolId = b.symbolId → a.seq < b.seq
  deriving Decidable

structure Tipped (s s' : Shard) (log : List MeRecord) : Prop where
  same : ∀ symbolId, (∀ record ∈ log, record.symbolId ≠ symbolId) →
    s'.tips symbolId = s.tips symbolId
  from_log : ∀ symbolId, s'.tips symbolId = s.tips symbolId ∨
    ∃ record ∈ log, record.symbolId = symbolId ∧ s'.tips symbolId = record.seq
  covers : ∀ record ∈ log, record.fill?.isSome → record.symbolId < s.maxSymbols →
    record.seq ≤ s'.tips record.symbolId
  grows : ∀ symbolId, s.tips symbolId ≤ s'.tips symbolId

theorem tips_processFill {fill : FillEvent} (h : s.Fresh fill) :
    (s.processFill fill).tips = update s.tips fill.symbolId fill.seq := by
  obtain ⟨prices, dirty, liquidation, cancels, hfill⟩ := processFill_of_fresh h
  obtain ⟨accounts, positions, exposure, hbook⟩ := s.bookFill_frame fill
  rw [hfill, hbook]
  rfl

theorem fillsOf_cons (s : Shard) (record : MeRecord) (log : List MeRecord) :
    s.fillsOf (record :: log) = (match record.fill? with
      | none => []
      | some fill => if s.Counts fill then [fill] else []) ++ s.fillsOf log := by
  unfold fillsOf
  rw [filterMap_cons]
  cases record.fill? with
  | none => rfl
  | some fill =>
    dsimp only
    rw [filter_cons]
    by_cases hcounts : s.Counts fill
    · rw [if_pos (decide_eq_true hcounts), if_pos hcounts]
      rfl
    · rw [if_neg (by simpa using hcounts), if_neg hcounts]
      rfl

theorem fillsOf_nil (s : Shard) : s.fillsOf [] = [] := rfl

theorem mem_fillsOf {fill : FillEvent} :
    fill ∈ s.fillsOf log ↔ (∃ record ∈ log, record.fill? = some fill) ∧ s.Counts fill := by
  rw [fillsOf, mem_filter, mem_filterMap, decide_eq_true_iff]

theorem fillsOf_append (s : Shard) (log log' : List MeRecord) :
    s.fillsOf (log ++ log') = s.fillsOf log ++ s.fillsOf log' := by
  rw [fillsOf, filterMap_append, filter_append]
  rfl

theorem SameShard.counts_iff {s' : Shard} (h : s.SameShard s') (fill : FillEvent) :
    s'.Counts fill ↔ s.Counts fill := by
  rw [Counts, Counts, h.users, h.symbols]

theorem Booked.step {step : Shard → MeRecord → Shard} (hstep : Ingests step)
    (h : s₀.Booked s fills charged) {record : MeRecord}
    (hahead : s.tips record.symbolId < record.seq) :
    s₀.Booked (step s record) (fills ++ s₀.fillsOf [record])
        (fun userId => charged userId ++ s.chargesIn (s₀.fillsOf [record]) userId) ∧
      s.Tipped (step s record) [record] ∧ s.SameFees (step s record) := by
  rw [fillsOf_cons, fillsOf_nil, append_nil]
  cases hfill : record.fill? with
  | none =>
    obtain ⟨hkept, hfees⟩ := hstep.other s hfill
    refine ⟨?_, ⟨?_, ?_, ?_, ?_⟩, hfees⟩
    · simpa [chargesIn] using h.kept hkept
    · exact fun symbolId _ => congrFun hkept.tips symbolId
    · exact fun symbolId => .inl (congrFun hkept.tips symbolId)
    · intro other hmem hsome
      cases mem_singleton.1 hmem
      rw [hfill] at hsome
      cases hsome
    · exact fun symbolId => (congrFun hkept.tips symbolId).ge
  | some fill =>
    obtain ⟨hsymbol, hseq⟩ := MeRecord.fill?_ids hfill
    rw [hstep.fill s hfill]
    dsimp only
    by_cases hbound : fill.symbolId < s.maxSymbols
    · have hfresh : s.Fresh fill := ⟨hbound, by rw [hsymbol, hseq]; exact hahead⟩
      refine ⟨?_, ⟨?_, ?_, ?_, ?_⟩, (s.shard_processFill fill).2⟩
      · split_ifs with hcounts
        · simpa [chargesIn] using h.processFill hfresh
        · have hforeign := h.foreign hfresh fun _ => notMem_partiesIn fun hparty =>
            hcounts ((h.shard.counts_iff fill).1 ⟨hbound, hparty⟩)
          simpa [chargesIn] using hforeign
      · intro symbolId hne
        rw [tips_processFill hfresh, update_of_ne]
        rw [hsymbol]
        exact (hne record (mem_singleton_self record)).symm
      · intro symbolId
        rw [tips_processFill hfresh]
        rcases eq_or_ne symbolId fill.symbolId with rfl | hne
        · exact .inr ⟨record, mem_singleton_self record, hsymbol.symm, (update_self ..).trans hseq⟩
        · exact .inl (update_of_ne hne _ _)
      · intro other hmem _ _
        cases mem_singleton.1 hmem
        rw [tips_processFill hfresh, ← hsymbol, update_self, hseq]
      · intro symbolId
        rw [tips_processFill hfresh]
        rcases eq_or_ne symbolId fill.symbolId with rfl | hne
        · rw [update_self]
          exact hfresh.2.le
        · rw [update_of_ne hne]
    · have hsame : s.processFill fill = s :=
        processFill_of_not_fresh fun hfresh => hbound hfresh.1
      have hcounts : ¬ s₀.Counts fill := fun hcounts => hbound (h.shard.symbols ▸ hcounts.1)
      rw [hsame, if_neg hcounts]
      refine ⟨by simpa [chargesIn] using h, ⟨fun _ _ => rfl, fun _ => .inl rfl, ?_,
        fun _ => le_rfl⟩, rfl, rfl⟩
      intro other hmem _ hother
      cases mem_singleton.1 hmem
      exact absurd (hsymbol ▸ hother) hbound

theorem Tipped.nil (h : s'.tips = s.tips) : s.Tipped s' [] :=
  ⟨fun _ _ => congrFun h _, fun _ => .inl (congrFun h _), fun _ hmem => absurd hmem not_mem_nil,
    fun _ => (congrFun h _).ge⟩

theorem Tipped.append {log' : List MeRecord} (h : s.Tipped s₁ log)
    (h' : s₁.Tipped s₂ log') (hshard : s.SameShard s₁) : s.Tipped s₂ (log ++ log') := by
  refine ⟨fun symbolId hne => ?_, fun symbolId => ?_, fun record hmem hsome hbound => ?_,
    fun symbolId => (h.grows symbolId).trans (h'.grows symbolId)⟩
  · rw [h'.same symbolId fun record hmem => hne record (mem_append_right log hmem)]
    exact h.same symbolId fun record hmem => hne record (mem_append_left log' hmem)
  · rcases h'.from_log symbolId with hsame | ⟨record, hmem, hrecord⟩
    · rw [hsame]
      refine (h.from_log symbolId).imp id ?_
      rintro ⟨record, hmem, hrecord⟩
      exact ⟨record, mem_append_left log' hmem, hrecord⟩
    · exact .inr ⟨record, mem_append_right log hmem, hrecord⟩
  · rcases mem_append.1 hmem with hmem | hmem
    · exact (h.covers record hmem hsome hbound).trans (h'.grows record.symbolId)
    · exact h'.covers record hmem hsome (hshard.symbols ▸ hbound)

theorem Tipped.ahead {record : MeRecord}
    (h : s.Tipped s' [record])
    (hahead : ∀ other ∈ record :: log, s.tips other.symbolId < other.seq)
    (hlater : ∀ other ∈ log, record.symbolId = other.symbolId → record.seq < other.seq) :
    ∀ other ∈ log, s'.tips other.symbolId < other.seq := by
  intro other hmem
  rcases h.from_log other.symbolId with hsame | ⟨first, hfirst, hsymbol, htip⟩
  · rw [hsame]
    exact hahead other (mem_cons_of_mem record hmem)
  · cases mem_singleton.1 hfirst
    rw [htip]
    exact hlater other hmem hsymbol

/-- **Runs.**  A log that is ahead of the tips is booked, whatever its streams. -/
theorem Booked.run {step : Shard → MeRecord → Shard} (hstep : Ingests step)
    (h : s₀.Booked s fills charged) (hlog : Ascending log)
    (hahead : ∀ record ∈ log, s.tips record.symbolId < record.seq) :
    s₀.Booked (log.foldl step s) (fills ++ s₀.fillsOf log)
        (fun userId => charged userId ++ s.chargesIn (s₀.fillsOf log) userId) ∧
      s.Tipped (log.foldl step s) log ∧ s.SameFees (log.foldl step s) := by
  induction log generalizing s fills charged with
  | nil =>
    refine ⟨?_, .nil rfl, rfl, rfl⟩
    simpa [fillsOf_nil, chargesIn] using h
  | cons record log ih =>
    obtain ⟨hhead, htail⟩ := pairwise_cons.1 hlog
    obtain ⟨hbooked, htipped, hfees⟩ := h.step hstep (hahead record mem_cons_self)
    obtain ⟨hrest, htips, hfees'⟩ := ih hbooked htail (htipped.ahead hahead hhead)
    have hshard := h.shard.symm.trans hbooked.shard
    refine ⟨?_, htipped.append htips hshard, hfees.trans hfees'⟩
    rw [hshard.chargesIn_eq hfees] at hrest
    have hcons : s₀.fillsOf (record :: log) = s₀.fillsOf [record] ++ s₀.fillsOf log :=
      s₀.fillsOf_append [record] log
    simpa only [foldl_cons, hcons, chargesIn_append, append_assoc] using hrest

end Shard

end Rsx.Risk
