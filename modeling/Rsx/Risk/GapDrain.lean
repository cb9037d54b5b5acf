import Rsx.Risk.Ingest
import Rsx.Risk.Trigger

/-!
# Gap drain and live ingest

A record of a gap does to the shard what the live loop does, unless it is a quote, which is applied
at once and not stashed, or an acceptance whose freeze is not in place.
-/

namespace Rsx.Risk

open Function Book List

namespace Shard

variable {s : Shard} {record : MeRecord}

/-! ## Records that do the same on both paths -/

/-- The margin of an accepted order is frozen as a replay would freeze it. -/
def FreezeStands (s : Shard) (order : MeAccepted) (symbolId : Nat) : Prop :=
  s.accounts order.userId ≠ none ∧ ∀ params ∈ s.margin.symbolParams symbolId,
    let amount := calculateMarginNeeded params order.price order.qty (s.takerFeeBps symbolId)
    s.frozenOrders order.orderId = some ⟨order.userId, symbolId, amount⟩ ∧
      (order.orderId, amount) ∈ s.frozenByUser order.userId ∧
      ∀ entry ∈ s.frozenByUser order.userId, entry.1 = order.orderId → entry.2 = amount
  deriving Decidable

/-- The record may come from a gap: it is no quote, and an acceptance finds its freeze. -/
def DrainsLive (s : Shard) (record : MeRecord) : Prop :=
  match record.body with
  | .bbo .. => False
  | .orderAccepted order =>
    s.userInShard order.userId ∧ order.reduceOnly = false → s.FreezeStands order record.symbolId
  | _ => True

instance (s : Shard) (record : MeRecord) : Decidable (s.DrainsLive record) := by
  unfold DrainsLive
  split <;> infer_instance

theorem insertFrozen_self {entries : List (OrderId × Int)} {orderId : OrderId} {amount : Int}
    (hmem : (orderId, amount) ∈ entries)
    (hsame : ∀ entry ∈ entries, entry.1 = orderId → entry.2 = amount) :
    insertFrozen entries orderId amount = entries := by
  have hany : entries.any (·.1 = orderId) := any_eq_true.2 ⟨_, hmem, decide_eq_true rfl⟩
  unfold insertFrozen
  rw [if_pos hany]
  refine (map_congr_left fun entry hentry => ?_).trans (map_id entries)
  split
  · rename_i hid
    exact Prod.ext hid.symm (hsame entry hentry hid).symm
  · rfl

theorem replayFreezeOrder_self {order : MeAccepted} {symbolId : Nat}
    (h : s.FreezeStands order symbolId) :
    s.replayFreezeOrder order.userId order.orderId order.price order.qty symbolId = s := by
  obtain ⟨haccount, hfrozen⟩ := h
  have hensure : s.ensureAccount order.userId = s := by
    obtain ⟨_, hsome⟩ := Option.ne_none_iff_exists'.1 haccount
    unfold ensureAccount
    rw [hsome]
  unfold replayFreezeOrder
  dsimp only
  rw [hensure]
  split
  · rfl
  · rename_i params hparams
    obtain ⟨horder, hmem, hsame⟩ := hfrozen params hparams
    unfold freeze
    rw [insertFrozen_self hmem hsame, update_eq_self, ← horder, update_eq_self]

theorem detached_applyRecord (h : s.DrainsLive record) :
    (s.applyRecord record).detached = (s.receive record).detached := by
  unfold DrainsLive at h
  unfold applyRecord receive
  cases hbody : record.body with
  | bbo =>
    rw [hbody] at h
    exact h.elim
  | orderAccepted order =>
    rw [hbody] at h
    dsimp only at h ⊢
    have hlive : (if order.reduceOnly = false then
        s.confirmFreeze order.userId order.orderId record.symbolId else s).detached =
        s.detached := by
      split
      · exact detached_confirmFreeze ..
      · rfl
    rw [hlive]
    split
    · rename_i hreserves
      rw [replayFreezeOrder_self (h hreserves)]
    · rfl
  | _ => rfl

theorem forward_detached (s : Shard) (record : MeRecord) :
    s.detached.forward record = s.forward record := rfl

/-! ## The index price -/

/-- The step touches neither the index prices nor the stash. -/
structure QuotesKept (s s' : Shard) : Prop where
  index : s'.indexPrices = s.indexPrices
  stash : s'.stashedBbo = s.stashedBbo
  symbols : s'.maxSymbols = s.maxSymbols

theorem QuotesKept.refl (s : Shard) : s.QuotesKept s :=
  ⟨rfl, rfl, rfl⟩

theorem Keeps.quotesKept {s' : Shard} (h : s.Keeps s') : s.QuotesKept s' :=
  ⟨h.prices.2.1, h.stashed, h.shard.2.2⟩

theorem quotesKept_processFill (s : Shard) (fill : FillEvent) :
    s.QuotesKept (s.processFill fill) := by
  obtain ⟨_, _, _, _, _, _, _, _, _, hframe⟩ := s.processFill_frame fill
  rw [hframe]
  exact ⟨rfl, rfl, rfl⟩

theorem quotesKept_receive
    (h : ∀ bidPx bidQty askPx askQty, record.body ≠ .bbo bidPx bidQty askPx askQty) :
    s.QuotesKept (s.receive record) := by
  unfold receive
  split <;> rename_i hbody
  · exact s.quotesKept_processFill _
  · exact (s.calm_releaseFrozenForOrder _ _).toKeeps.quotesKept
  · exact (s.calm_releaseFrozenForOrder _ _).toKeeps.quotesKept
  · split
    · exact (s.calm_confirmFreeze _ _ _).toKeeps.quotesKept
    · exact .refl s
  · exact absurd hbody (h _ _ _ _)
  · exact (s.calm_processConfigApplied _ _).toKeeps.quotesKept
  · exact .refl s
  · exact .refl s

theorem drainSymbol_ne {sid other : Nat} (nowNs : Nat) (hne : sid ≠ other)
    (hkey : ∀ bbo ∈ s.stashedBbo other, bbo.symbolId = other) :
    (drainSymbol nowNs s other).indexPrices sid = s.indexPrices sid ∧
      (drainSymbol nowNs s other).stashedBbo sid = s.stashedBbo sid := by
  cases hstash : s.stashedBbo other with
  | none =>
    rw [drainSymbol_none nowNs hstash]
    exact ⟨rfl, rfl⟩
  | some bbo =>
    obtain ⟨_, _, _, _, hdrain⟩ := drainSymbol_some nowNs hstash
    rw [hdrain]
    unfold withLiquidation quoted processBbo
    split
    · exact ⟨rfl, update_of_ne hne _ _⟩
    · exact ⟨update_of_ne (hkey bbo hstash ▸ hne) _ _, update_of_ne hne _ _⟩

theorem drainSymbol_self (s : Shard) (sid nowNs : Nat) :
    (drainSymbol nowNs s sid).stashedBbo sid = none ∧
      ((drainSymbol nowNs s sid).indexPrices sid = s.indexPrices sid ∨
        ∃ bbo ∈ s.stashedBbo sid, (drainSymbol nowNs s sid).indexPrices sid =
          (s.indexPrices sid).updateFromBbo bbo) := by
  cases hstash : s.stashedBbo sid with
  | none =>
    rw [drainSymbol_none nowNs hstash]
    exact ⟨hstash, .inl rfl⟩
  | some bbo =>
    obtain ⟨_, _, _, _, hdrain⟩ := drainSymbol_some nowNs hstash
    rw [hdrain]
    unfold withLiquidation quoted processBbo
    split
    · exact ⟨update_self .., .inl rfl⟩
    · refine ⟨update_self .., ?_⟩
      by_cases hsymbol : sid = bbo.symbolId
      · refine .inr ⟨bbo, rfl, ?_⟩
        dsimp only
        rw [← hsymbol, update_self]
      · exact .inl (update_of_ne hsymbol _ _)

theorem drain_quotes {symbols : List Nat} {sid nowNs : Nat}
    (hkeys : ∀ other, ∀ bbo ∈ s.stashedBbo other, bbo.symbolId = other) :
    ((symbols.foldl (drainSymbol nowNs) s).stashedBbo sid = s.stashedBbo sid ∨
        (symbols.foldl (drainSymbol nowNs) s).stashedBbo sid = none) ∧
      ((symbols.foldl (drainSymbol nowNs) s).indexPrices sid = s.indexPrices sid ∨
        ∃ bbo ∈ s.stashedBbo sid, (symbols.foldl (drainSymbol nowNs) s).indexPrices sid =
          (s.indexPrices sid).updateFromBbo bbo) := by
  induction symbols generalizing s with
  | nil => exact ⟨.inl rfl, .inl rfl⟩
  | cons first symbols ih =>
    have hkeys' : ∀ other, ∀ bbo ∈ (drainSymbol nowNs s first).stashedBbo other,
        bbo.symbolId = other := by
      obtain ⟨_, _, _, _, _, hframe⟩ := drainSymbol_frame nowNs s first
      rw [hframe]
      intro other bbo hbbo
      rcases eq_or_ne other first with rfl | hne
      · cases (update_self _ _ s.stashedBbo).symm.trans hbbo
      · exact hkeys other bbo ((update_of_ne hne _ _).symm.trans hbbo)
    obtain ⟨hstash, hindex⟩ := ih hkeys'
    rw [foldl_cons]
    rcases eq_or_ne sid first with rfl | hne
    · -- the quote is used once, after which nothing is stashed
      obtain ⟨hcleared, hused⟩ := s.drainSymbol_self sid nowNs
      rw [hcleared] at hstash hindex
      have hsame := hindex.resolve_right (by rintro ⟨_, hbbo, -⟩; cases hbbo)
      rw [hsame]
      exact ⟨.inr (hstash.elim id id), hused⟩
    · obtain ⟨hindex', hstash'⟩ := drainSymbol_ne nowNs hne (hkeys first)
      rw [hindex', hstash'] at hindex
      rw [hstash'] at hstash
      exact ⟨hstash, hindex⟩

theorem tick_quotes (s : Shard) (sid : Nat) (rings : ShardRings) (nowSecs : Nat)
    (ids : Nat → OrderId) (hkeys : ∀ other, ∀ bbo ∈ s.stashedBbo other, bbo.symbolId = other) :
    (s.tick rings nowSecs ids).1.maxSymbols = s.maxSymbols ∧
      ((s.tick rings nowSecs ids).1.stashedBbo sid = s.stashedBbo sid ∨
        (s.tick rings nowSecs ids).1.stashedBbo sid = none) ∧
      ((s.tick rings nowSecs ids).1.indexPrices sid = s.indexPrices sid ∨
        ∃ bbo ∈ s.stashedBbo sid, (s.tick rings nowSecs ids).1.indexPrices sid =
          (s.indexPrices sid).updateFromBbo bbo) := by
  have hbefore := (s.keeps_beforeQuotes rings nowSecs ids).quotesKept
  rw [tick_eq]
  generalize (s.beforeQuotes rings nowSecs ids).1 = s₁ at *
  split
  · obtain ⟨hindex, hstash, hsymbols⟩ := hbefore
    obtain ⟨_, _, _, _, _, _, hframe⟩ :=
      drain_frame (nowSecs * 1000000000) s₁ (range s₁.maxSymbols)
    have hdrain := @drain_quotes s₁ (range s₁.maxSymbols) sid (nowSecs * 1000000000)
      (hstash ▸ hkeys)
    obtain ⟨hindex', hstash', hsymbols'⟩ := (still_maybeSettleFunding
      (s₁.drainStashedBbos (nowSecs * 1000000000)) nowSecs).toKeeps.quotesKept
    rw [hindex', hstash', hsymbols', ← hindex, ← hstash, ← hsymbols]
    refine ⟨?_, hdrain⟩
    rw [drainStashedBbos, hframe]
  · exact ⟨hbefore.symbols, .inl (congrFun hbefore.stash sid), .inl (congrFun hbefore.index sid)⟩

end Shard

/-! ## Two runs of a node -/

namespace Node

variable {node node' : Node}
  {op : IngestOp} {ops : List IngestOp} {record : MeRecord}

/-- A record of a gap may be drained here; everything else may happen anywhere. -/
def DrainsLive (node : Node) : IngestOp → Prop
  | .drained record => node.shard.DrainsLive record
  | _ => True

instance (node : Node) (op : IngestOp) : Decidable (node.DrainsLive op) :=
  match op with
  | .drained record => inferInstanceAs (Decidable (node.shard.DrainsLive record))
  | .live _ | .order _ | .mark _ _ | .config _ | .tick .. => .isTrue trivial

/-- The nodes differ at most in what they pushed to be persisted. -/
structure Agrees (node node' : Node) : Prop where
  shard : node.shard.detached = node'.shard.detached
  forwarded : node.forwarded = node'.forwarded
  newest : node.newest = node'.newest

section

variable (h : node.Agrees node')
include h

theorem Agrees.received {shard shard' : Shard}
    (hshard : shard.detached = shard'.detached) (record : MeRecord) :
    Agrees ⟨shard, node.forwarded ++ shard.forward record, node.noteQuote record⟩
      ⟨shard', node'.forwarded ++ shard'.forward record, node'.noteQuote record⟩ := by
  refine ⟨hshard, ?_, ?_⟩
  · have hforward := congrArg (fun s : Shard => s.forward record) hshard
    rw [Shard.forward_detached, Shard.forward_detached] at hforward
    rw [h.forwarded, hforward]
  · unfold noteQuote
    rw [h.newest]

theorem Agrees.step (f : Shard → Shard) (hf : ∀ s : Shard, f s.detached = (f s).detached) :
    (f node.shard).detached = (f node'.shard).detached := by
  rw [← hf, ← hf, h.shard]

theorem Agrees.ingest (hop : node.DrainsLive op) :
    (node.ingest op).Agrees (node'.ingest op.asLive) := by
  cases op with
  | live record =>
    exact h.received (h.step (·.receive record) fun s => s.receive_detached record) record
  | drained record =>
    refine h.received ?_ record
    rw [Shard.detached_applyRecord hop]
    exact h.step (·.receive record) fun s => s.receive_detached record
  | order request =>
    refine ⟨?_, h.forwarded, h.newest⟩
    exact h.step (fun s => (s.processOrder request).1) fun s =>
      congrArg Prod.fst (s.processOrder_detached request)
  | mark symbolId price =>
    refine ⟨?_, h.forwarded, h.newest⟩
    exact h.step (·.updateMark symbolId price) fun s => s.updateMark_detached symbolId price
  | config update =>
    refine ⟨?_, h.forwarded, h.newest⟩
    exact h.step (fun s => { s with configUpdates := s.configUpdates ++ [update] }) fun _ => rfl
  | tick rings nowSecs ids =>
    refine ⟨?_, h.forwarded, h.newest⟩
    exact h.step (fun s => (s.tick rings nowSecs ids).1) fun s =>
      congrArg Prod.fst (s.tick_detached rings nowSecs ids)

theorem Agrees.run (hops : Along (fun node op => some (Node.ingest node op)) DrainsLive node ops) :
    (ops.foldl Node.ingest node).Agrees ((ops.map IngestOp.asLive).foldl Node.ingest node') := by
  induction ops generalizing node node' with
  | nil => exact h
  | cons op ops ih => exact ih (h.ingest hops.1) (hops.2 _ rfl)

end

/-- An index price that an operation changes comes from the newest quote received. -/
def QuotesInOrder (node : Node) (op : IngestOp) : Prop :=
  ∀ sid, (node.ingest op).shard.indexPrices sid = node.shard.indexPrices sid ∨
    ∃ bbo ∈ (node.ingest op).newest sid,
      (node.ingest op).shard.indexPrices sid = (node.shard.indexPrices sid).updateFromBbo bbo

def StashNewest (node : Node) : Prop :=
  ∀ sid, ∀ bbo ∈ node.shard.stashedBbo sid,
    (bbo.symbolId = sid ∧ sid < node.shard.maxSymbols) ∧ node.newest sid = some bbo

def IsQuote (record : MeRecord) : Prop :=
  ∃ bidPx bidQty askPx askQty, record.body = .bbo bidPx bidQty askPx askQty

theorem noteQuote_of_not (h : ¬ IsQuote record) : node.noteQuote record = node.newest := by
  unfold noteQuote
  split <;> rename_i hbody
  · exact absurd ⟨_, _, _, _, hbody⟩ h
  · rfl

variable (h : node.StashNewest)
include h

theorem StashNewest.of_kept {node'' : Node}
    (hkept : node.shard.QuotesKept node''.shard) (hnewest : node''.newest = node.newest) :
    node''.StashNewest := by
  unfold StashNewest
  rw [hkept.stash, hkept.symbols, hnewest]
  exact h

theorem StashNewest.quote (bbo : BboUpdate) (hsymbol : bbo.symbolId = record.symbolId)
    (hshard : (node.ingest (.live record)).shard = node.shard.stashBbo bbo)
    (hnewest : (node.ingest (.live record)).newest =
      update node.newest record.symbolId (some bbo)) :
    (node.ingest (.live record)).StashNewest ∧ node.QuotesInOrder (.live record) := by
  unfold StashNewest QuotesInOrder
  rw [hshard, hnewest]
  unfold Shard.stashBbo
  split <;> rename_i hbound
  · refine ⟨fun sid stashed hstashed => ?_, fun sid => .inl rfl⟩
    obtain ⟨hkey, hnew⟩ := h sid stashed hstashed
    have hne : sid ≠ record.symbolId := by omega
    exact ⟨hkey, (update_of_ne hne _ _).trans hnew⟩
  · refine ⟨fun sid stashed hstashed => ?_, fun sid => .inl rfl⟩
    rw [hsymbol] at hstashed hbound
    rcases eq_or_ne sid record.symbolId with rfl | hne
    · cases (update_self _ _ node.shard.stashedBbo).symm.trans hstashed
      exact ⟨⟨hsymbol, not_le.1 hbound⟩, update_self ..⟩
    · obtain ⟨hkey, hnew⟩ := h sid stashed ((update_of_ne hne _ _).symm.trans hstashed)
      exact ⟨hkey, (update_of_ne hne _ _).trans hnew⟩

theorem StashNewest.live (record : MeRecord) :
    (node.ingest (.live record)).StashNewest ∧ node.QuotesInOrder (.live record) := by
  by_cases hquote : IsQuote record
  · obtain ⟨bidPx, bidQty, askPx, askQty, hbody⟩ := hquote
    refine h.quote ⟨record.seq, record.symbolId, bidPx, bidQty, askPx, askQty⟩ rfl ?_ ?_
    · change node.shard.receive record = _
      unfold Shard.receive
      rw [hbody]
    · change node.noteQuote record = _
      unfold noteQuote
      rw [hbody]
  · have hkept : node.shard.QuotesKept (node.shard.receive record) :=
      Shard.quotesKept_receive fun _ _ _ _ hbody => hquote ⟨_, _, _, _, hbody⟩
    exact ⟨h.of_kept hkept (noteQuote_of_not hquote), fun sid => .inl (congrFun hkept.index sid)⟩

theorem StashNewest.drained (hop : node.shard.DrainsLive record) :
    (node.ingest (.drained record)).StashNewest ∧ node.QuotesInOrder (.drained record) := by
  have hquote : ¬ IsQuote record := by
    rintro ⟨_, _, _, _, hbody⟩
    unfold Shard.DrainsLive at hop
    rw [hbody] at hop
    exact hop
  have hlive : node.shard.QuotesKept (node.shard.receive record) :=
    Shard.quotesKept_receive fun _ _ _ _ hbody => hquote ⟨_, _, _, _, hbody⟩
  have hsame := Shard.detached_applyRecord hop
  have hkept : node.shard.QuotesKept (node.shard.applyRecord record) :=
    ⟨(congrArg Shard.indexPrices hsame).trans hlive.index,
      (congrArg Shard.stashedBbo hsame).trans hlive.stash,
      (congrArg Shard.maxSymbols hsame).trans hlive.symbols⟩
  exact ⟨h.of_kept hkept (noteQuote_of_not hquote), fun sid => .inl (congrFun hkept.index sid)⟩

theorem StashNewest.ingest (hop : node.DrainsLive op) :
    (node.ingest op).StashNewest ∧ node.QuotesInOrder op := by
  cases op with
  | live record => exact h.live record
  | drained => exact h.drained hop
  | order request =>
    have hkept := (node.shard.calm_processOrder request).toKeeps.quotesKept
    exact ⟨h.of_kept hkept rfl, fun sid => .inl (congrFun hkept.index sid)⟩
  | mark symbolId price =>
    have hkept : node.shard.QuotesKept (node.shard.updateMark symbolId price) := by
      obtain ⟨_, _, hframe⟩ := node.shard.updateMark_frame symbolId price
      rw [hframe]
      exact ⟨rfl, rfl, rfl⟩
    exact ⟨h.of_kept hkept rfl, fun sid => .inl (congrFun hkept.index sid)⟩
  | config update =>
    have hkept : node.shard.QuotesKept
        { node.shard with configUpdates := node.shard.configUpdates ++ [update] } :=
      ⟨rfl, rfl, rfl⟩
    exact ⟨h.of_kept hkept rfl, fun sid => .inl rfl⟩
  | tick rings nowSecs ids =>
    have hquotes := fun sid => node.shard.tick_quotes sid rings nowSecs ids
      fun other bbo hbbo => (h other bbo hbbo).1.1
    refine ⟨fun sid bbo hbbo => ?_, fun sid => ?_⟩
    · rcases (hquotes sid).2.1 with hsame | hnone
      · obtain ⟨hkey, hnew⟩ := h sid bbo (hsame.symm.trans hbbo)
        exact ⟨⟨hkey.1, hkey.2.trans_eq (hquotes sid).1.symm⟩, hnew⟩
      · cases hnone.symm.trans hbbo
    · refine (hquotes sid).2.2.imp id ?_
      rintro ⟨bbo, hbbo, hindex⟩
      exact ⟨bbo, (h sid bbo hbbo).2, hindex⟩

theorem StashNewest.run
    (hops : Along (fun node op => some (Node.ingest node op)) DrainsLive node ops) :
    Along (fun node op => some (Node.ingest node op)) QuotesInOrder node ops :=
  Along.of_invariant
    (fun hs hok hstep => Option.some.inj hstep ▸ (StashNewest.ingest hs hok).1)
    (fun hs hok => (StashNewest.ingest hs hok).2) h hops

end Node

/-! ## Gap drain and live ingest agree -/

open Node Shard

/-- **Gap drain.**  A node that drained the gaps has the state and the output of a node that
received all records live, and index prices follow the quotes, when no quote is drained and every
drained acceptance finds its freeze. -/
theorem gap_drain_equals_live (shard : Shard) (hstash : ∀ sid, shard.stashedBbo sid = none)
    (ops : List IngestOp)
    (hops : Along (fun node op => some (Node.ingest node op)) DrainsLive { shard := shard } ops) :
    let drained := ops.foldl Node.ingest { shard := shard }
    let live := (ops.map IngestOp.asLive).foldl Node.ingest { shard := shard }
    (drained.shard.positions = live.shard.positions ∧ drained.shard.accounts = live.shard.accounts ∧
        drained.shard.frozenOrders = live.shard.frozenOrders ∧
        drained.shard.frozenByUser = live.shard.frozenByUser ∧
        drained.shard.tips = live.shard.tips ∧ drained.forwarded = live.forwarded) ∧
      Along (fun node op => some (Node.ingest node op)) QuotesInOrder { shard := shard } ops := by
  intro drained live
  have hagrees : drained.Agrees live := Agrees.run ⟨rfl, rfl, rfl⟩ hops
  have hnewest : StashNewest { shard := shard } := by
    intro sid bbo hbbo
    cases (hstash sid).symm.trans hbbo
  have hpart : ∀ {α : Type} (part : Shard → α), part drained.shard.detached =
      part live.shard.detached := fun part => congrArg part hagrees.shard
  exact ⟨⟨hpart positions, hpart accounts, hpart frozenOrders, hpart frozenByUser, hpart tips,
    hagrees.forwarded⟩, hnewest.run hops⟩

/-- An order is requested, its acceptance and its fill come from a gap, and a quote and the end of
the order come live. -/
theorem gap_drain_equals_live_fill :
    let shard : Shard := {
      maxSymbols := 1, liquidation := ⟨[], [], 0, 0, 0, 1, 0⟩
      accounts := Function.update (fun _ => none) 7 (some ⟨7, 500, 0⟩)
      margin := ⟨fun _ => some ⟨1000, 500, 0, 1⟩⟩, markPrices := fun _ => 100 }
    let ops : List IngestOp := [
      .order
        { userId := 7, symbolId := 0, price := 100, qty := 1, orderId := (0, 1), side := .buy },
      .drained ⟨0, 1, .orderAccepted ⟨7, (0, 1), 100, 1, false⟩⟩,
      .drained ⟨0, 2, .fill ⟨7, 8, (0, 1), (0, 2), 100, 1, .buy, 0⟩⟩,
      .live ⟨0, 3, .bbo 99 1 101 1⟩,
      .live ⟨0, 4, .orderDone 7 (0, 1)⟩,
      .tick ⟨⟨[], 4⟩, ⟨[], 4⟩⟩ 5 fun _ => (0, 0)]
    let drained := ops.foldl Node.ingest { shard := shard }
    let live := (ops.map IngestOp.asLive).foldl Node.ingest { shard := shard }
    drained.shard.positions = live.shard.positions ∧ drained.shard.tips = live.shard.tips ∧
      drained.forwarded = live.forwarded := by
  intro shard ops drained live
  have hops : Along (fun node op => some (Node.ingest node op)) DrainsLive
      { shard := shard } ops := by
    decide +kernel
  obtain ⟨⟨hpositions, -, -, -, htips, hforwarded⟩, -⟩ :=
    gap_drain_equals_live shard (fun _ => rfl) ops hops
  exact ⟨hpositions, htips, hforwarded⟩

/-- A quote is received live, a newer one comes from a gap and is applied at once, and the tick then
applies the older one.  A fee that changes between an order and its drained acceptance changes the
freeze too. -/
theorem gap_drain_applies_older_quote :
    let shard : Shard := {
      maxSymbols := 1, liquidation := ⟨[], [], 0, 0, 0, 1, 0⟩
      accounts := Function.update (fun _ => none) 7 (some ⟨7, 500, 0⟩)
      margin := ⟨fun _ => some ⟨1000, 500, 0, 1⟩⟩, markPrices := fun _ => 100 }
    let ops : List IngestOp := [
      .order
        { userId := 7, symbolId := 0, price := 100, qty := 1, orderId := (0, 1), side := .buy },
      .config ⟨0, 1, ⟨1000, 500, 0, 1⟩, 100, 0, 0, 0, 0, 0⟩,
      .tick ⟨⟨[], 4⟩, ⟨[], 4⟩⟩ 4 fun _ => (0, 0),
      .live ⟨0, 1, .bbo 99 1 101 1⟩,
      .drained ⟨0, 2, .bbo 199 1 201 1⟩,
      .drained ⟨0, 3, .orderAccepted ⟨7, (0, 1), 100, 1, false⟩⟩,
      .tick ⟨⟨[], 4⟩, ⟨[], 4⟩⟩ 5 fun _ => (0, 0)]
    let drained := ops.foldl Node.ingest { shard := shard }
    let live := (ops.map IngestOp.asLive).foldl Node.ingest { shard := shard }
    drained.newest 0 = some ⟨2, 0, 199, 1, 201, 1⟩ ∧
      drained.shard.indexPrices 0 = ⟨100, true⟩ ∧ live.shard.indexPrices 0 = ⟨200, true⟩ ∧
      drained.shard.frozenOrders (0, 1) = some ⟨7, 0, 11⟩ ∧
      live.shard.frozenOrders (0, 1) = some ⟨7, 0, 10⟩ := by
  decide +kernel

end Rsx.Risk
