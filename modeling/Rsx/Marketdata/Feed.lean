import Rsx.Marketdata.Fanout

/-!
# The feed

The server with everything that happens to it: records of the matching engine, gaps in their stream,
clients that come, go and subscribe, heartbeats, sweeps over stale books, and a client that takes
the frames queued for it.  -/

namespace Rsx.Marketdata

open Function Book List

structure Limits where
  maxOutbound : Nat
  snapshotDepth : Nat

/-- The server, and the frames that each connection was sent. -/
structure Feed where
  state : MarketDataState
  received : Nat → List MdFrame := fun _ => []

inductive FeedEvent
  | record (now symbolId : Nat) (r : Matching.Record)
  | gap
  | connect (now : Nat)
  | disconnect (connId : Nat)
  | subscribe (connId symbolId channels : Nat)
  | unsubscribe (connId symbolId : Nat)
  | heartbeat (now connId timestampMs : Nat)
  | drain (connId : Nat)
  | broadcastHeartbeat (tsMs : Nat)
  | checkTimeouts (now timeoutNs : Nat)
  | evict (now ttlNs : Nat)

namespace Feed

def handle (f : Feed) (connId : Nat) (st : MarketDataState) : Option Feed :=
  if connId < f.state.nextConnId then some { f with state := st } else none

def step (limits : Limits) (f : Feed) : FeedEvent → Option Feed
  | .record now symbolId r =>
    (f.state.applyRecord now symbolId r limits.maxOutbound).map fun st => { f with state := st }
  | .gap =>
    some { f with
      state := f.state.noteGap.resendAllSnapshots limits.snapshotDepth limits.maxOutbound }
  | .connect now => some { f with state := f.state.addConnection now }
  | .disconnect connId => f.handle connId (f.state.removeConnection connId)
  | .subscribe connId symbolId channels =>
    f.handle connId
      (f.state.onSubscribe connId symbolId channels limits.snapshotDepth limits.maxOutbound)
  | .unsubscribe connId symbolId => f.handle connId (f.state.onUnsubscribe connId symbolId)
  | .heartbeat now connId timestampMs =>
    f.handle connId (f.state.onHeartbeat now connId timestampMs limits.maxOutbound)
  | .drain connId =>
    let (st, frames) := f.state.drainOutbound connId
    some
      { state := st
        received := update f.received connId (f.received connId ++ frames) }
  | .broadcastHeartbeat tsMs => some { f with state := f.state.broadcastHeartbeat tsMs }
  | .checkTimeouts now timeoutNs => some { f with state := f.state.checkTimeouts now timeoutNs }
  | .evict now ttlNs => some { f with state := f.state.evictStaleBooks now ttlNs }

end Feed

/-! ## Subscriptions -/

namespace SubscriptionManager

variable {m : SubscriptionManager} {c c' x x' depth : Nat}

def channels (m : SubscriptionManager) (c x : Nat) : Option Nat :=
  (m.clients c).bind fun sub => sub.symbols x

structure Wf (m : SubscriptionManager) (depth : Nat) : Prop where
  nodup : ∀ x, (m.clientsForSymbol x).Nodup
  listed : ∀ c x, c ∈ m.clientsForSymbol x ↔ m.channels c x ≠ none
  depth : ∀ c, ∀ sub ∈ m.clients c, sub.depth = depth

theorem hasDepth_eq (m : SubscriptionManager) (c x : Nat) :
    m.hasDepth c x = (m.channels c x).any fun channels => channels &&& channelDepth ≠ 0 :=
  rfl

theorem channels_ne_none (h : m.hasDepth c x = true) : m.channels c x ≠ none := by
  intro hnone
  rw [hasDepth_eq, hnone] at h
  cases h

theorem Wf.clientDepth (hm : m.Wf depth) (h : m.hasDepth c x = true ∨ c ∈ m.clientsForSymbol x) :
    m.clientDepth c = depth := by
  have hchannels : m.channels c x ≠ none := h.elim channels_ne_none (hm.listed c x).1
  unfold SubscriptionManager.clientDepth
  unfold channels at hchannels
  cases hc : m.clients c with
  | none => exact absurd (by rw [hc]; rfl) hchannels
  | some sub => exact hm.depth c sub hc

theorem wf_new (depth : Nat) : Wf {} depth where
  nodup := fun _ => nodup_nil
  listed := fun _ _ => ⟨fun h => absurd h not_mem_nil, fun h => absurd rfl h⟩
  depth := fun _ _ hsub => nomatch hsub

theorem channels_subscribe (ch depth : Nat) : (m.subscribe c x ch depth).1.channels c' x' =
      if c' = c ∧ x' = x then some ch else m.channels c' x' := by
  unfold subscribe channels
  dsimp only
  by_cases hc : c' = c
  · subst hc
    rw [update_self, Option.bind_some]
    dsimp only
    by_cases hx : x' = x
    · subst hx
      rw [update_self, if_pos ⟨rfl, rfl⟩]
    · rw [update_of_ne hx, if_neg fun h => hx h.2]
      cases m.clients c' <;> rfl
  · rw [update_of_ne hc, if_neg fun h => hc h.1]

theorem channels_unsubscribe :
    (m.unsubscribe c x).channels c' x' = if c' = c ∧ x' = x then none else m.channels c' x' := by
  unfold unsubscribe channels
  dsimp only
  by_cases hc : c' = c
  · subst hc
    rw [update_self]
    cases m.clients c' with
    | none =>
      show none = if _ then none else none
      rw [ite_self]
    | some sub =>
      show update sub.symbols x none x' = if _ then none else sub.symbols x'
      by_cases hx : x' = x
      · subst hx
        rw [update_self, if_pos ⟨rfl, rfl⟩]
      · rw [update_of_ne hx, if_neg fun h => hx h.2]
  · rw [update_of_ne hc, if_neg fun h => hc h.1]

theorem channels_unsubscribeAll :
    (m.unsubscribeAll c).channels c' x' = if c' = c then none else m.channels c' x' := by
  unfold unsubscribeAll channels
  cases hc : m.clients c with
  | none =>
    by_cases heq : c' = c
    · subst heq
      rw [if_pos rfl, hc]
      rfl
    · rw [if_neg heq]
  | some =>
    dsimp only
    by_cases heq : c' = c
    · subst heq
      rw [if_pos rfl, update_self]
      rfl
    · rw [if_neg heq, update_of_ne heq]

theorem channels_unsubscribe_or : (m.unsubscribe c x).channels c' x' = m.channels c' x' ∨
    (m.unsubscribe c x).channels c' x' = none := by
  rw [channels_unsubscribe]
  split_ifs
  · exact .inr rfl
  · exact .inl rfl

theorem channels_unsubscribeAll_or : (m.unsubscribeAll c).channels c' x' = m.channels c' x' ∨
    (m.unsubscribeAll c).channels c' x' = none := by
  rw [channels_unsubscribeAll]
  split_ifs
  · exact .inr rfl
  · exact .inl rfl

theorem Wf.subscribe (hm : m.Wf depth) (c x ch : Nat) : (m.subscribe c x ch depth).1.Wf depth where
  nodup := by
    intro x'
    show (update m.symbolClients x _ x').Nodup
    by_cases hx : x' = x
    · subst hx
      rw [update_self]
      exact (hm.nodup x').insert
    · rw [update_of_ne hx]
      exact hm.nodup x'
  listed := by
    intro c' x'
    rw [channels_subscribe]
    show c' ∈ update m.symbolClients x _ x' ↔ _
    by_cases hx : x' = x
    · subst hx
      rw [update_self, mem_insert_iff]
      by_cases hc : c' = c
      · simp [hc]
      · rw [or_iff_right hc, if_neg fun h => hc h.1]
        exact hm.listed c' x'
    · rw [update_of_ne hx, if_neg fun h => hx h.2]
      exact hm.listed c' x'
  depth := by
    intro c' sub hsub
    have hsub : update m.clients c _ c' = some sub := hsub
    by_cases hc : c' = c
    · subst hc
      rw [update_self] at hsub
      exact Option.some.inj hsub ▸ rfl
    · rw [update_of_ne hc] at hsub
      exact hm.depth c' sub hsub

theorem Wf.unsubscribe (hm : m.Wf depth) (c x : Nat) : (m.unsubscribe c x).Wf depth where
  nodup := by
    intro x'
    show (update m.symbolClients x _ x').Nodup
    by_cases hx : x' = x
    · subst hx
      rw [update_self]
      exact (hm.nodup x').erase c
    · rw [update_of_ne hx]
      exact hm.nodup x'
  listed := by
    intro c' x'
    rw [channels_unsubscribe]
    show c' ∈ update m.symbolClients x _ x' ↔ _
    by_cases hx : x' = x
    · subst hx
      have hnodup : (m.symbolClients x').Nodup := hm.nodup x'
      rw [update_self, hnodup.mem_erase_iff]
      by_cases hc : c' = c
      · simp [hc]
      · rw [and_iff_right hc, if_neg fun h => hc h.1]
        exact hm.listed c' x'
    · rw [update_of_ne hx, if_neg fun h => hx h.2]
      exact hm.listed c' x'
  depth := by
    intro c' sub hsub
    have hsub : update m.clients c _ c' = some sub := hsub
    by_cases hc : c' = c
    · subst hc
      rw [update_self] at hsub
      obtain ⟨sub', hsub', rfl⟩ := Option.map_eq_some_iff.1 hsub
      exact hm.depth c' sub' hsub'
    · rw [update_of_ne hc] at hsub
      exact hm.depth c' sub hsub

theorem Wf.unsubscribeAll (hm : m.Wf depth) (c : Nat) : (m.unsubscribeAll c).Wf depth := by
  cases hc : m.clients c with
  | none =>
    have hsame : m.unsubscribeAll c = m := by
      unfold SubscriptionManager.unsubscribeAll
      rw [hc]
    rwa [hsame]
  | some sub =>
    have heq : m.unsubscribeAll c =
        { clients := update m.clients c none
          symbolClients := fun x =>
            if (sub.symbols x).isSome then (m.symbolClients x).erase c
            else m.symbolClients x } := by
      unfold SubscriptionManager.unsubscribeAll
      rw [hc]
    refine ⟨fun x => ?_, fun c' x => ?_, fun c' sub' hsub' => ?_⟩
    · rw [heq]
      show (if _ then _ else _ : List Nat).Nodup
      split_ifs
      · exact (hm.nodup x).erase c
      · exact hm.nodup x
    · rw [channels_unsubscribeAll, heq]
      show c' ∈ (if _ then _ else _ : List Nat) ↔ _
      have hnodup : (m.symbolClients x).Nodup := hm.nodup x
      have hown : m.channels c x = sub.symbols x := by
        unfold channels
        rw [hc]
        rfl
      have hlisted : c' ∈ m.symbolClients x ↔ m.channels c' x ≠ none := hm.listed c' x
      by_cases hcc : c' = c
      · subst hcc
        rw [if_pos rfl]
        split_ifs with hsome
        · rw [hnodup.mem_erase_iff]
          simp
        · rw [hlisted, hown]
          simpa using hsome
      · split_ifs
        · rw [hnodup.mem_erase_iff, and_iff_right hcc, hlisted]
        · exact hlisted
    · rw [heq] at hsub'
      have hsub' : update m.clients c none c' = some sub' := hsub'
      by_cases hcc : c' = c
      · subst hcc
        rw [update_self] at hsub'
        cases hsub'
      · rw [update_of_ne hcc] at hsub'
        exact hm.depth c' sub' hsub'

end SubscriptionManager

/-! ## Sweeps -/

namespace MarketDataState

variable {st : MarketDataState} {now ttlNs x : Nat}

def Stale (st : MarketDataState) (now ttlNs x : Nat) : Prop :=
  st.lastBookAccess x ≠ 0 ∧ ttlNs ≤ now - st.lastBookAccess x ∧ st.subs.clientsForSymbol x = []
  deriving Decidable

structure Swept (st st' : MarketDataState) : Prop extends SameSetup st st' where
  connections : st'.connections = st.connections

theorem evictBook_of_stale (hsome : st.books x ≠ none) (hstale : st.Stale now ttlNs x) :
    st.evictBook now ttlNs x =
      { st with
        books := update st.books x none
        lastBookAccess := update st.lastBookAccess x 0 } := by
  obtain ⟨hzero, hold, hclients⟩ := hstale
  unfold evictBook
  rw [if_neg (by simpa using hsome), if_neg hzero, if_neg hold.not_gt, if_pos hclients]

theorem evictBook_of_not (h : st.books x = none ∨ ¬ st.Stale now ttlNs x) :
    st.evictBook now ttlNs x = st := by
  unfold evictBook
  split_ifs with hnone hzero hrecent hclients
  · rfl
  · rfl
  · rfl
  · rcases h with h | h
    · exact absurd (Option.isNone_iff_eq_none.2 h) hnone
    · exact absurd ⟨hzero, not_lt.1 hrecent, hclients⟩ h
  · rfl

theorem evictBook_spec (st : MarketDataState) (now ttlNs x : Nat) :
    Swept st (st.evictBook now ttlNs x) ∧ (st.evictBook now ttlNs x).books x =
        (if st.Stale now ttlNs x then none else st.books x) ∧
      ∀ x' ≠ x, (st.evictBook now ttlNs x).books x' = st.books x' ∧
        (st.evictBook now ttlNs x).lastBookAccess x' = st.lastBookAccess x' := by
  by_cases h : st.books x ≠ none ∧ st.Stale now ttlNs x
  · rw [evictBook_of_stale h.1 h.2, if_pos h.2]
    exact ⟨⟨⟨rfl, rfl, rfl, rfl, rfl, rfl⟩, rfl⟩, update_self ..,
      fun x' hne => ⟨update_of_ne hne .., update_of_ne hne ..⟩⟩
  · have hnot : st.books x = none ∨ ¬ st.Stale now ttlNs x := by tauto
    rw [evictBook_of_not hnot]
    refine ⟨⟨.refl st, rfl⟩, ?_, fun _ _ => ⟨rfl, rfl⟩⟩
    rcases hnot with hnone | hnot
    · rw [hnone, ite_self]
    · rw [if_neg hnot]

theorem foldl_evictBook (now ttlNs : Nat) {l : List Nat} (hnodup : l.Nodup) (st : MarketDataState) :
    Swept st (l.foldl (fun st x => st.evictBook now ttlNs x) st) ∧
      ∀ x, (l.foldl (fun st x => st.evictBook now ttlNs x) st).books x =
        if x ∈ l ∧ st.Stale now ttlNs x then none else st.books x := by
  induction l generalizing st with
  | nil =>
    refine ⟨⟨.refl st, rfl⟩, fun x => ?_⟩
    rfl
  | cons y l ih =>
    obtain ⟨hy, hrest⟩ := nodup_cons.1 hnodup
    obtain ⟨hswept, hown, hother⟩ := st.evictBook_spec now ttlNs y
    obtain ⟨hswept', hbooks⟩ := ih hrest (st.evictBook now ttlNs y)
    rw [foldl_cons]
    refine ⟨⟨hswept.toSameSetup.trans hswept'.toSameSetup, hswept'.2.trans hswept.2⟩,
      fun x => ?_⟩
    rw [hbooks]
    by_cases hxy : x = y
    · subst hxy
      rw [if_neg fun h => hy h.1, hown]
      simp only [mem_cons_self, true_and]
    · obtain ⟨hsame, haccess⟩ := hother x hxy
      have hstale : (st.evictBook now ttlNs y).Stale now ttlNs x ↔ st.Stale now ttlNs x := by
        unfold Stale
        rw [haccess, hswept.subs]
      simp only [mem_cons, hxy, false_or, hstale, hsame]

/-- **A sweep.** -/
theorem evictStaleBooks_spec (st : MarketDataState) (now ttlNs : Nat) :
    Swept st (st.evictStaleBooks now ttlNs) ∧ ∀ x, (st.evictStaleBooks now ttlNs).books x =
        if x < st.maxSymbols ∧ st.Stale now ttlNs x then none else st.books x := by
  obtain ⟨hswept, hbooks⟩ := foldl_evictBook now ttlNs (nodup_range (n := st.maxSymbols)) st
  simp only [mem_range] at hbooks
  exact ⟨hswept, hbooks⟩

end MarketDataState

end Rsx.Marketdata
