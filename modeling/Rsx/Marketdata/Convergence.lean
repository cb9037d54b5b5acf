import Rsx.Marketdata.Shown

/-!
# Clients converge

Every event of the feed keeps the ladders of a client with the books, as long as no queued frame of
a symbol is dropped for another one, and the client hears of a level before it moves up to the first
ones.  -/

namespace Rsx.Marketdata

open Function Book ClientBook Option MarketDataState SubscriptionManager ConnectionState

namespace Feed

variable {limits : Limits} {f f' : Feed} {event : FeedEvent} {c : Nat}
  {now x connId depth : Nat} {r : Matching.Record} {st' st : MarketDataState}

structure Sound (limits : Limits) (f : Feed) : Prop where
  books : f.state.BooksValid
  subs : f.state.subs.Wf limits.snapshotDepth
  fresh : ∀ c, f.state.nextConnId ≤ c →
    f.state.connections c = none ∧ ∀ x, f.state.subs.channels c x = none
  capacity : f.state.bookCapacity ≤ NONE

def Shown (limits : Limits) (f : Feed) (c : Nat) : Prop :=
  ∀ conn ∈ f.state.connections c, f.state.ShownTo limits.snapshotDepth (f.received c) c conn

def Fitting (f : Feed) : FeedEvent → Prop
  | .record _ x r => ∀ sh ∈ f.state.bookFor x r, sh.Fits r
  | _ => True

/-- Whatever drops the queue of a client drops no frame of another symbol it follows. -/
def Sparing (limits : Limits) (c : Nat) (f : Feed) : FeedEvent → Prop
  | .record _ x r => ∀ conn ∈ f.state.connections c,
      f.state.Safe limits.maxOutbound c x (f.state.brings c x r) conn
  | .subscribe connId x channels => connId = c → channels &&& 2 ≠ 0 →
      ∀ conn ∈ f.state.connections c, f.state.Spared c x conn
  | _ => True

/-- When the last order of one of the first levels ends, the client was told the next level. -/
def Told (limits : Limits) (c : Nat) (f : Feed) : FeedEvent → Prop
  | .record _ x r => x < f.state.maxSymbols → f.state.subs.hasDepth c x = true →
      ∀ conn ∈ f.state.connections c, ∀ sh ∈ f.state.books x, ∀ o ∈ sh.ending r,
        (sh.level o.side o.price).count = 1 →
        o.side.key o.price ∈
          ((sh.levels o.side).take limits.snapshotDepth).map (levelKey o.side) →
        ∀ level ∈ (sh.levels o.side)[limits.snapshotDepth]?,
          level ∈ (fold x (f.received c ++ conn.outbound)).side o.side
  | _ => True

instance (f : Feed) : ∀ event, Decidable (f.Fitting event)
  | .record _ x r => inferInstanceAs (Decidable (∀ sh ∈ f.state.bookFor x r, sh.Fits r))
  | .gap | .connect _ | .disconnect _ | .subscribe .. | .unsubscribe .. | .heartbeat .. | .drain _
  | .broadcastHeartbeat _ | .checkTimeouts .. | .evict .. => .isTrue trivial

instance (limits : Limits) (c : Nat) (f : Feed) : ∀ event, Decidable (Sparing limits c f event)
  | .record .. => inferInstanceAs (Decidable (∀ conn ∈ f.state.connections c, _))
  | .subscribe .. => inferInstanceAs (Decidable (_ → _ → ∀ conn ∈ f.state.connections c, _))
  | .gap | .connect _ | .disconnect _ | .unsubscribe .. | .heartbeat .. | .drain _
  | .broadcastHeartbeat _ | .checkTimeouts .. | .evict .. => .isTrue trivial

instance (limits : Limits) (c : Nat) (f : Feed) : ∀ event, Decidable (Told limits c f event)
  | .record _ x r =>
    inferInstanceAs (Decidable (_ → _ → ∀ conn ∈ f.state.connections c,
      ∀ sh ∈ f.state.books x, ∀ o ∈ sh.ending r, _ → _ → ∀ level ∈ _, _))
  | .gap | .connect _ | .disconnect _ | .subscribe .. | .unsubscribe .. | .heartbeat .. | .drain _
  | .broadcastHeartbeat _ | .checkTimeouts .. | .evict .. => .isTrue trivial

theorem Sound.of_setup (hf : f.Sound limits) (st' : MarketDataState)
    (hsetup : SameSetup f.state st') (hbooks : st'.BooksValid)
    (hnone : ∀ c, f.state.connections c = none → st'.connections c = none)
    (received : Nat → List MdFrame) : Sound limits ⟨st', received⟩ where
  books := hbooks
  subs := by
    rw [hsetup.subs]
    exact hf.subs
  fresh := by
    intro c hc
    have hc : st'.nextConnId ≤ c := hc
    rw [hsetup.nextConnId] at hc
    obtain ⟨hconn, hchannels⟩ := hf.fresh c hc
    refine ⟨hnone c hconn, fun x => ?_⟩
    rw [hsetup.subs]
    exact hchannels x
  capacity := by
    rw [hsetup.bookCapacity]
    exact hf.capacity

theorem Sound.record (hf : f.Sound limits) (hfits : f.Fitting (.record now x r))
    (hrun : f.state.applyRecord now x r limits.maxOutbound = some st') :
    Sound limits { f with state := st' } := by
  obtain ⟨hsetup, hcase⟩ := applyRecord_spec (hf.subs.nodup x) hrun
  rcases hcase with ⟨hbooks, hconnections, -⟩ | ⟨sh, sh', update, htakes⟩
  · refine hf.of_setup st' hsetup (fun x sh hsh => hf.books x sh ?_) ?_ _
    · exact (congrFun hbooks x).symm.trans hsh
    · rw [hconnections]
      exact fun _ hnone => hnone
  · obtain ⟨hvalid, hsymbol, -⟩ := hf.books.bookFor hf.capacity htakes.before
    have happlies := hvalid.applies (hfits sh htakes.before) htakes.applied
    refine hf.of_setup st' hsetup (hf.books.setBook happlies.valid (happlies.symbolId.trans hsymbol)
      htakes.books) (fun c hnone => ?_) _
    cases update with
    | none =>
      rw [htakes.quiet rfl]
      exact hnone
    | some place =>
      obtain ⟨_, -, hconnections⟩ := htakes.sent place rfl
      rw [hconnections]
      simp only [hnone, map_none, ite_self]

theorem books_of_ending {sh : ShadowBook}
    {o : Resting} (hbefore : st.bookFor x r = some sh) (ho : o ∈ sh.ending r) :
    st.books x = some sh := by
  cases r with
  | orderInserted => cases ho
  | _ => exact hbefore

/-- **A record**, in the queue of a client. -/
theorem Shown.record (h : f.Shown limits c) (hf : f.Sound limits) (hmax : 0 < limits.maxOutbound)
    (hfits : f.Fitting (.record now x r))
    (hsparing : Sparing limits c f (.record now x r)) (htold : Told limits c f (.record now x r))
    (hrun : f.state.applyRecord now x r limits.maxOutbound = some st') :
    Shown limits { f with state := st' } c := by
  obtain ⟨hsetup, hcase⟩ := applyRecord_spec (hf.subs.nodup x) hrun
  have hdepths : ∀ {x}, st'.subs.hasDepth c x = true → f.state.subs.hasDepth c x = true := by
    intro x hdepth
    rwa [hsetup.subs] at hdepth
  intro conn' hconn'
  rcases hcase with ⟨hbooks, hconnections, -⟩ | ⟨sh, sh', update, htakes⟩
  · have hconn : f.state.connections c = some conn' := (congrFun hconnections c).symm.trans hconn'
    exact (h conn' hconn).congr hsetup.maxSymbols (fun x hdepth =>
      ⟨hdepths hdepth, levels_congr (congrFun hbooks x)⟩) rfl
  obtain ⟨hvalid, hsymbol, hlevels⟩ := hf.books.bookFor hf.capacity htakes.before
  have happlies := hvalid.applies (hfits sh htakes.before) htakes.applied
  have hown : st'.levels x = sh'.levels :=
    levels_of_some ((congrFun htakes.books x).trans (update_self ..))
  have hothers : ∀ x' ≠ x, st'.levels x' = f.state.levels x' := fun x' hne =>
    levels_congr ((congrFun htakes.books x').trans (update_of_ne hne ..))
  cases update with
  | none =>
    have hconn : f.state.connections c = some conn' :=
      (congrFun (htakes.quiet rfl) c).symm.trans hconn'
    refine (h conn' hconn).congr hsetup.maxSymbols (fun x' hdepth => ⟨hdepths hdepth, ?_⟩) rfl
    by_cases hx : x' = x
    · rw [hx, hown, hlevels, happlies.same rfl]
    · exact hothers x' hx
  | some place =>
    obtain ⟨delta, hdelta, hconnections⟩ := htakes.sent place rfl
    rw [hconnections] at hconn'
    by_cases hmem : c ∈ f.state.subs.clientsForSymbol x
    · simp only [if_pos hmem] at hconn'
      obtain ⟨conn, hconn, rfl⟩ := map_eq_some_iff.1 hconn'
      set st₁ := f.state.setBook x sh' with hst₁
      have hshown : st₁.ShownTo limits.snapshotDepth (f.received c) c
          (st₁.served x delta (f.state.bboFor x sh') (tradeFor sh' r)
            limits.maxOutbound c conn) := by
        have hbooks₁ : st₁.books = update f.state.books x (some sh') := rfl
        have hown₁ : st₁.levels x = sh'.levels :=
          levels_of_some (update_self ..)
        have hsafe := hsparing conn hconn
        unfold brings at hsafe
        rw [htakes.before, bind_some, htakes.applied] at hsafe
        refine shownTo_served
          (hf.books.setBook happlies.valid (happlies.symbolId.trans hsymbol) hbooks₁) hmax
          (fun hclient => hf.subs.clientDepth hclient) hmem hsafe ?_ ?_ ?_
        · have hfields := (happlies.touched place rfl).delta.symm.trans hdelta
          rw [← some.inj hfields]
          exact happlies.symbolId.trans hsymbol
        · intro x' hx' hne hdepth
          have hlevels' : st₁.levels x' = f.state.levels x' :=
            levels_congr (update_of_ne hne ..)
          rw [hlevels']
          exact h conn hconn x' hx' hdepth
        · intro hx hdepth
          have hsees := h conn hconn x hx hdepth
          rw [hlevels] at hsees
          rw [hown₁]
          refine sees_delta hsees (happlies.touched place rfl) happlies.valid hdelta ?_
          intro hcount hfirst
          obtain ⟨o, ho, rfl, hone⟩ := happlies.emptied place rfl hcount
          exact htold hx hdepth conn hconn sh (books_of_ending htakes.before ho) o ho hone hfirst
      refine hshown.congr hsetup.maxSymbols (fun x' hdepth => ⟨hdepths hdepth, ?_⟩) rfl
      exact levels_congr (congrFun htakes.books x')
    · simp only [if_neg hmem] at hconn'
      refine (h conn' hconn').congr hsetup.maxSymbols (fun x' hdepth => ⟨hdepths hdepth, ?_⟩) rfl
      refine hothers x' ?_
      rintro rfl
      exact hmem ((hf.subs.listed c x').2
        (channels_ne_none (hdepths hdepth)))

/-! ### Events that leave the books alone -/

theorem Sound.withConnections (hf : f.Sound limits) {connections : Nat → Option ConnectionState}
    (hnone : ∀ c, f.state.connections c = none → connections c = none)
    (received : Nat → List MdFrame) :
    Sound limits ⟨f.state.withConnections connections, received⟩ :=
  hf.of_setup (f.state.withConnections connections) ⟨rfl, rfl, rfl, rfl, rfl, rfl⟩ hf.books hnone
    received

theorem Shown.onConnection (h : f.Shown limits c)
    {g : ConnectionState → ConnectionState}
    (hown : ∀ conn ∈ f.state.connections c,
      f.state.ShownTo limits.snapshotDepth (f.received c) c conn →
        f.state.ShownTo limits.snapshotDepth (f.received c) c (g conn)) :
    Shown limits { f with state := f.state.onConnection connId g } c := by
  intro conn' hconn'
  have hconn' : update f.state.connections connId _ c = some conn' := hconn'
  by_cases hc : c = connId
  · subst hc
    rw [update_self] at hconn'
    obtain ⟨conn, hconn, rfl⟩ := map_eq_some_iff.1 hconn'
    exact hown conn hconn (h conn hconn)
  · rw [update_of_ne hc] at hconn'
    exact h conn' hconn'

theorem Sound.onConnection (hf : f.Sound limits) (connId : Nat)
    (g : ConnectionState → ConnectionState) (received : Nat → List MdFrame) :
    Sound limits ⟨f.state.onConnection connId g, received⟩ := by
  refine hf.withConnections (fun c hnone => ?_) received
  by_cases hc : c = connId
  · subst hc
    rw [update_self, hnone]
    rfl
  · rw [update_of_ne hc]
    exact hnone

theorem drainOutbound_eq (st : MarketDataState) (connId : Nat) : st.drainOutbound connId =
      (st.onConnection connId clear, (st.connections connId).elim [] outbound) := by
  unfold drainOutbound
  cases hconn : st.connections connId with
  | none =>
    rw [st.onConnection_of_none _ hconn]
    rfl
  | some =>
    unfold onConnection
    rw [hconn]
    rfl

theorem step_drain (limits : Limits) (f : Feed) (connId : Nat) :
    f.step limits (.drain connId) = some
      { state := f.state.onConnection connId clear
        received := update f.received connId
          (f.received connId ++ (f.state.connections connId).elim [] outbound) } := by
  unfold step
  dsimp only
  rw [drainOutbound_eq]

theorem Shown.drain (h : f.Shown limits c)
    (hstep : f.step limits (.drain connId) = some f') : f'.Shown limits c := by
  rw [step_drain] at hstep
  cases hstep
  intro conn' hconn'
  have hconn' : update f.state.connections connId _ c = some conn' := hconn'
  show f.state.ShownTo _ (update f.received connId _ c) c conn'
  by_cases hc : c = connId
  · subst hc
    rw [update_self] at hconn' ⊢
    obtain ⟨conn, hconn, rfl⟩ := map_eq_some_iff.1 hconn'
    intro x hx hdepth
    rw [hconn]
    show Sees _ _ (fold x (f.received c ++ conn.outbound ++ []))
    rw [List.append_nil]
    exact h conn hconn x hx hdepth
  · rw [update_of_ne hc] at hconn' ⊢
    exact h conn' hconn'

theorem onHeartbeat_eq (st : MarketDataState) (now connId timestampMs maxOutbound : Nat) :
    st.onHeartbeat now connId timestampMs maxOutbound = st.onConnection connId
        (offer maxOutbound (.heartbeat timestampMs) ∘
          fun conn => { conn with lastHeartbeatNs := now }) := by
  unfold onHeartbeat
  rw [pushToClient_eq]
  exact st.onConnection_comp _ _

theorem Shown.heartbeat (h : f.Shown limits c) (now connId timestampMs : Nat) :
    Shown limits { f with
      state := f.state.onHeartbeat now connId timestampMs limits.maxOutbound } c := by
  rw [onHeartbeat_eq]
  refine h.onConnection fun conn _ hshown => ?_
  have hshown : f.state.ShownTo limits.snapshotDepth (f.received c) c
      { conn with lastHeartbeatNs := now } := hshown
  exact hshown.offer rfl _

theorem Sound.broadcastHeartbeat (hf : f.Sound limits) (tsMs : Nat) :
    Sound limits { f with state := f.state.broadcastHeartbeat tsMs } := by
  refine hf.withConnections (fun c hnone => ?_) _
  rw [hnone]
  rfl

theorem Shown.broadcastHeartbeat (h : f.Shown limits c) (tsMs : Nat) :
    Shown limits { f with state := f.state.broadcastHeartbeat tsMs } c := by
  intro conn' hconn'
  obtain ⟨conn, hconn, rfl⟩ := map_eq_some_iff.1 hconn'
  exact (h conn hconn).push rfl

/-! ### Gaps -/

theorem resendSnapshot_eq {maxOutbound : Nat}
    {snapshot : L2Snapshot} (hnodup : (st.subs.clientsForSymbol x).Nodup)
    (hsnapshot : st.snapshotMsg x depth = some snapshot) :
    st.resendSnapshot x depth maxOutbound = st.withConnections fun c =>
        if c ∈ st.subs.clientsForSymbol x then
          (st.connections c).map fun conn =>
            if st.subs.hasDepth c x then conn.offer maxOutbound (.snapshot snapshot) else conn
        else st.connections c := by
  unfold resendSnapshot
  rw [hsnapshot]
  refine st.foldl_onConnection (fun connections c => ?_) hnodup st.connections
  show (if st.subs.hasDepth c x = true then _ else _) = _
  by_cases hdepth : st.subs.hasDepth c x = true
  · simp only [if_pos hdepth]
    exact pushToClient_eq ..
  · simp only [if_neg hdepth]
    unfold onConnection
    rw [map_id', update_eq_self]
    rfl

theorem resendSnapshot_of_none (hnone : st.snapshotMsg x depth = none) (maxOutbound : Nat) :
    st.resendSnapshot x depth maxOutbound = st := by
  unfold resendSnapshot
  rw [hnone]

theorem Sound.resend (hf : f.Sound limits) (x : Nat) : Sound limits { f with
      state := f.state.resendSnapshot x limits.snapshotDepth limits.maxOutbound } := by
  cases hsnapshot : f.state.snapshotMsg x limits.snapshotDepth with
  | none =>
    rw [resendSnapshot_of_none hsnapshot]
    exact hf
  | some =>
    rw [resendSnapshot_eq (hf.subs.nodup x) hsnapshot]
    refine hf.withConnections (fun c hnone => ?_) _
    rw [hnone, map_none, ite_self]

theorem Shown.resend (h : f.Shown limits c) (hf : f.Sound limits) (x : Nat) : Shown limits { f with
      state := f.state.resendSnapshot x limits.snapshotDepth limits.maxOutbound } c := by
  cases hsnapshot : f.state.snapshotMsg x limits.snapshotDepth with
  | none =>
    rw [resendSnapshot_of_none hsnapshot]
    exact h
  | some =>
    rw [resendSnapshot_eq (hf.subs.nodup x) hsnapshot]
    intro conn' hconn'
    have hconn' : (if c ∈ f.state.subs.clientsForSymbol x then
        (f.state.connections c).map _ else f.state.connections c) = some conn' := hconn'
    by_cases hmem : c ∈ f.state.subs.clientsForSymbol x
    · rw [if_pos hmem] at hconn'
      obtain ⟨conn, hconn, rfl⟩ := map_eq_some_iff.1 hconn'
      split_ifs
      · exact (h conn hconn).offer_snapshot hf.books hsnapshot _
      · exact h conn hconn
    · rw [if_neg hmem] at hconn'
      exact h conn' hconn'

theorem gap_induction {P : MarketDataState → Prop} (hstart : P f.state.noteGap)
    (hresend : ∀ st x, P st → P (st.resendSnapshot x limits.snapshotDepth limits.maxOutbound)) :
    P (f.state.noteGap.resendAllSnapshots limits.snapshotDepth limits.maxOutbound) := by
  unfold resendAllSnapshots
  revert hstart
  generalize f.state.noteGap = st
  induction List.range st.maxSymbols generalizing st with
  | nil => exact fun hstart => hstart
  | cons x rest ih =>
    intro hstart
    rw [List.foldl_cons]
    refine ih _ ?_
    split_ifs
    · exact hresend st x hstart
    · exact hstart

theorem Sound.gap (hf : f.Sound limits) : Sound limits { f with
      state := f.state.noteGap.resendAllSnapshots limits.snapshotDepth limits.maxOutbound } :=
  gap_induction (P := fun st => Sound limits { f with state := st })
    (hf.of_setup f.state.noteGap ⟨rfl, rfl, rfl, rfl, rfl, rfl⟩ hf.books (fun _ hnone => hnone) _)
    fun _ x h => h.resend x

theorem Shown.gap (h : f.Shown limits c) (hf : f.Sound limits) : Shown limits { f with
      state := f.state.noteGap.resendAllSnapshots limits.snapshotDepth limits.maxOutbound } c :=
  (gap_induction
    (P := fun st => Sound limits { f with state := st } ∧ Shown limits { f with state := st } c)
    ⟨hf.of_setup f.state.noteGap ⟨rfl, rfl, rfl, rfl, rfl, rfl⟩ hf.books
      (fun _ hnone => hnone) _, h⟩
    fun _ x h => ⟨h.1.resend x, h.2.resend h.1 x⟩).2

/-! ### Connections and subscriptions -/

theorem Sound.connect (hf : f.Sound limits) (now : Nat) :
    Sound limits { f with state := f.state.addConnection now } := by
  refine ⟨hf.books, hf.subs, fun c' hc' => ?_, hf.capacity⟩
  obtain ⟨hnone, hchannels⟩ := hf.fresh c' (Nat.le_of_succ_le hc')
  refine ⟨?_, hchannels⟩
  show update f.state.connections _ _ c' = none
  rw [update_of_ne (Nat.ne_of_gt hc')]
  exact hnone

theorem Shown.connect (h : f.Shown limits c) (hf : f.Sound limits) (now : Nat) :
    Shown limits { f with state := f.state.addConnection now } c := by
  intro conn' hconn'
  have hconn' : update f.state.connections _ _ c = some conn' := hconn'
  by_cases hc : c = f.state.nextConnId
  · -- Nobody subscribed for a connection that was not there.
    intro x hx hdepth
    exact absurd ((hf.fresh c hc.ge).2 x) (channels_ne_none hdepth)
  · rw [update_of_ne hc] at hconn'
    exact h conn' hconn'

/-- Subscriptions and connections that end, and books that go. -/
structure Fewer (st st' : MarketDataState) : Prop where
  channels : ∀ c x, st'.subs.channels c x = st.subs.channels c x ∨ st'.subs.channels c x = none
  connections : ∀ c, st'.connections c = st.connections c ∨ st'.connections c = none
  books : ∀ x, st'.books x = st.books x ∨ st'.books x = none ∧ ∀ c, st'.subs.channels c x = none
  nextConnId : st'.nextConnId = st.nextConnId
  maxSymbols : st'.maxSymbols = st.maxSymbols
  bookCapacity : st'.bookCapacity = st.bookCapacity

theorem Sound.fewer (hf : f.Sound limits) (hfewer : Fewer f.state st')
    (hsubs : st'.subs.Wf limits.snapshotDepth) : Sound limits { f with state := st' } := by
  refine ⟨fun x sh hsh => ?_, hsubs, fun c' hc' => ?_, ?_⟩
  · rcases hfewer.books x with heq | ⟨hnone, -⟩
    · rw [heq] at hsh
      exact hf.books x sh hsh
    · rw [hnone] at hsh
      cases hsh
  · rw [hfewer.nextConnId] at hc'
    obtain ⟨hnone, hnever⟩ := hf.fresh c' hc'
    exact ⟨(hfewer.connections c').elim (fun heq => heq.trans hnone) id,
      fun x => (hfewer.channels c' x).elim (fun heq => heq.trans (hnever x)) id⟩
  · rw [hfewer.bookCapacity]
    exact hf.capacity

theorem Shown.fewer (h : f.Shown limits c) (hfewer : Fewer f.state st') :
    Shown limits { f with state := st' } c := by
  intro conn' hconn'
  rcases hfewer.connections c with heq | hnone
  · rw [heq] at hconn'
    refine (h conn' hconn').congr hfewer.maxSymbols (fun x hdepth => ⟨?_, ?_⟩) rfl
    · rw [hasDepth_eq] at hdepth ⊢
      rcases hfewer.channels c x with heq | hnone
      · rwa [← heq]
      · exact absurd hnone (channels_ne_none hdepth)
    · rcases hfewer.books x with heq | ⟨-, hnobody⟩
      · exact levels_congr heq
      · exact absurd (hnobody c) (channels_ne_none hdepth)
  · rw [hnone] at hconn'
    cases hconn'

theorem fewer_removeConnection (st : MarketDataState) (connId : Nat) :
    Fewer st (st.removeConnection connId) where
  channels := fun _ _ => channels_unsubscribeAll_or
  connections := by
    intro c
    by_cases hc : c = connId
    · subst hc
      exact .inr (update_self ..)
    · exact .inl (update_of_ne hc ..)
  books := fun _ => .inl rfl
  nextConnId := rfl
  maxSymbols := rfl
  bookCapacity := rfl

theorem fewer_onUnsubscribe (st : MarketDataState) (connId x : Nat) :
    Fewer st (st.onUnsubscribe connId x) where
  channels := by
    intro c x'
    unfold onUnsubscribe
    split_ifs
    · exact channels_unsubscribeAll_or
    · exact channels_unsubscribe_or
  connections := fun _ => .inl rfl
  books := fun _ => .inl rfl
  nextConnId := rfl
  maxSymbols := rfl
  bookCapacity := rfl

theorem fewer_evict (hsubs : st.subs.Wf depth)
    (now ttlNs : Nat) : Fewer st (st.evictStaleBooks now ttlNs) := by
  obtain ⟨hswept, hbooks⟩ := st.evictStaleBooks_spec now ttlNs
  refine ⟨fun c x => .inl ?_, fun c => .inl ?_, fun x => ?_, hswept.nextConnId, hswept.maxSymbols,
    hswept.bookCapacity⟩
  · rw [hswept.subs]
  · rw [hswept.connections]
  · rw [hbooks, hswept.subs]
    split_ifs with hstale
    · refine .inr ⟨rfl, fun c => ?_⟩
      by_contra hsome
      have hmem := (hsubs.listed c x).2 hsome
      rw [hstale.2.2.2] at hmem
      exact List.not_mem_nil hmem
    · exact .inl rfl

section

variable (hf : f.Sound limits)
include hf

theorem Sound.disconnect (connId : Nat) :
    Sound limits { f with state := f.state.removeConnection connId } :=
  hf.fewer (fewer_removeConnection f.state connId) (hf.subs.unsubscribeAll connId)

theorem Sound.unsubscribe (connId x : Nat) :
    Sound limits { f with state := f.state.onUnsubscribe connId x } := by
  refine hf.fewer (fewer_onUnsubscribe f.state connId x) ?_
  unfold onUnsubscribe
  split_ifs
  · exact hf.subs.unsubscribeAll connId
  · exact hf.subs.unsubscribe connId x

theorem Sound.evict (now ttlNs : Nat) :
    Sound limits { f with state := f.state.evictStaleBooks now ttlNs } := by
  refine hf.fewer (fewer_evict hf.subs now ttlNs) ?_
  rw [(f.state.evictStaleBooks_spec now ttlNs).1.subs]
  exact hf.subs

theorem Sound.checkTimeouts (now timeoutNs : Nat) :
    Sound limits { f with state := f.state.checkTimeouts now timeoutNs } := by
  unfold MarketDataState.checkTimeouts
  induction f.state.timedOut now timeoutNs generalizing f with
  | nil => exact hf
  | cons connId rest ih => exact ih (hf.disconnect connId)

end

theorem Shown.checkTimeouts (h : f.Shown limits c) (now timeoutNs : Nat) :
    Shown limits { f with state := f.state.checkTimeouts now timeoutNs } c := by
  unfold MarketDataState.checkTimeouts
  induction f.state.timedOut now timeoutNs generalizing f with
  | nil => exact h
  | cons connId rest ih => exact ih (h.fewer (fewer_removeConnection f.state connId))

section Subscribe

variable {connId x channels : Nat}

def subscribed (limits : Limits) (f : Feed) (connId x channels : Nat) : MarketDataState :=
  { f.state with subs := (f.state.subs.subscribe connId x channels limits.snapshotDepth).1 }

theorem onSubscribe_eq (limits : Limits) (f : Feed) (connId x channels : Nat) :
    f.state.onSubscribe connId x channels limits.snapshotDepth limits.maxOutbound =
      if channels &&& 2 ≠ 0 then
        (f.subscribed limits connId x channels).onConnection connId
          (refresh limits.maxOutbound
            ((f.subscribed limits connId x channels).snapshotMsg x limits.snapshotDepth))
      else f.subscribed limits connId x channels := by
  unfold onSubscribe
  split_ifs
  · exact sendSnapshotToClient_eq ..
  · rfl

theorem channels_subscribed (c' x' : Nat) :
    (f.subscribed limits connId x channels).subs.channels c' x' =
      if c' = connId ∧ x' = x then some channels else f.state.subs.channels c' x' :=
  channels_subscribe ..

theorem Sound.subscribed (hf : f.Sound limits) (hconnId : connId < f.state.nextConnId) :
    Sound limits { f with state := f.subscribed limits connId x channels } := by
  refine ⟨hf.books, hf.subs.subscribe connId x channels, fun c' hc' => ?_, hf.capacity⟩
  obtain ⟨hnone, hnever⟩ := hf.fresh c' hc'
  refine ⟨hnone, fun x' => ?_⟩
  rw [channels_subscribed, if_neg]
  · exact hnever x'
  · have hc' : f.state.nextConnId ≤ c' := hc'
    omega

theorem Sound.subscribe (hf : f.Sound limits) (hconnId : connId < f.state.nextConnId) :
    Sound limits { f with
      state := f.state.onSubscribe connId x channels limits.snapshotDepth limits.maxOutbound } := by
  have hf₁ : Sound limits { f with state := f.subscribed limits connId x channels } :=
    hf.subscribed hconnId
  rw [onSubscribe_eq]
  split_ifs
  · exact hf₁.onConnection connId _ _
  · exact hf₁

theorem Shown.subscribe (h : f.Shown limits c) (hf : f.Sound limits) (hmax : 0 < limits.maxOutbound)
    (hsparing : Sparing limits c f (.subscribe connId x channels))
    (hconnId : connId < f.state.nextConnId) :
    Shown limits { f with
      state := f.state.onSubscribe connId x channels limits.snapshotDepth limits.maxOutbound }
        c := by
  set st₁ := f.subscribed limits connId x channels with hst₁
  have hf₁ : Sound limits { f with state := st₁ } := hf.subscribed hconnId
  have hsame : ∀ x', ¬(c = connId ∧ x' = x) →
      st₁.subs.hasDepth c x' = f.state.subs.hasDepth c x' := by
    intro x' hne
    rw [hasDepth_eq, channels_subscribed, if_neg hne]
    rfl
  have hown : c = connId → st₁.subs.hasDepth c x = decide (channels &&& 2 ≠ 0) := by
    intro hc
    rw [hasDepth_eq, channels_subscribed, if_pos ⟨hc, rfl⟩]
    rfl
  rw [onSubscribe_eq]
  by_cases hdepth : channels &&& 2 ≠ 0
  · rw [if_pos hdepth]
    intro conn' hconn'
    have hconn' : update f.state.connections connId _ c = some conn' := hconn'
    by_cases hc : c = connId
    · subst hc
      rw [update_self] at hconn'
      obtain ⟨conn, hconn, rfl⟩ := map_eq_some_iff.1 hconn'
      have hshown : st₁.ShownTo limits.snapshotDepth (f.received c) c
          (conn.refresh limits.maxOutbound (st₁.snapshotMsg x limits.snapshotDepth)) := by
        refine shownTo_refresh hf₁.books hmax ?_ fun x' hx' hne hdepth' => ?_
        · intro frame hframe x' hx' hdepth'
          by_contra hne
          rw [hsame x' fun heq => hne heq.2] at hdepth'
          exact hne (hsparing rfl hdepth conn hconn frame hframe x' hx' hdepth')
        · rw [hsame x' fun heq => hne heq.2] at hdepth'
          exact h conn hconn x' hx' hdepth'
      exact hshown
    · rw [update_of_ne hc] at hconn'
      refine (h conn' hconn').congr rfl (fun x' hdepth' => ⟨?_, rfl⟩) rfl
      rwa [← hsame x' fun heq => hc heq.1]
  · rw [if_neg hdepth]
    intro conn' hconn'
    refine (h conn' hconn').congr rfl (fun x' hdepth' => ⟨?_, rfl⟩) rfl
    have hne : ¬(c = connId ∧ x' = x) := by
      rintro ⟨hc, rfl⟩
      rw [hown hc, decide_eq_false hdepth] at hdepth'
      cases hdepth'
    rwa [← hsame x' hne]

end Subscribe

/-! ### Steps -/

theorem handle_some {connId : Nat} {st : MarketDataState} (h : f.handle connId st = some f') :
    connId < f.state.nextConnId ∧ f' = { f with state := st } := by
  unfold handle at h
  split_ifs at h with hconnId
  exact ⟨hconnId, (some.inj h).symm⟩

theorem Sound.step (hf : f.Sound limits) (hfits : f.Fitting event)
    (hstep : f.step limits event = some f') : f'.Sound limits := by
  cases event with
  | record =>
    obtain ⟨_, hrun, rfl⟩ := map_eq_some_iff.1 hstep
    exact hf.record hfits hrun
  | gap => exact some.inj hstep ▸ hf.gap
  | connect now => exact some.inj hstep ▸ hf.connect now
  | disconnect connId =>
    obtain ⟨-, rfl⟩ := handle_some hstep
    exact hf.disconnect connId
  | subscribe =>
    obtain ⟨hconnId, rfl⟩ := handle_some hstep
    exact hf.subscribe hconnId
  | unsubscribe connId x =>
    obtain ⟨-, rfl⟩ := handle_some hstep
    exact hf.unsubscribe connId x
  | heartbeat =>
    obtain ⟨-, rfl⟩ := handle_some hstep
    rw [onHeartbeat_eq]
    exact hf.onConnection ..
  | drain =>
    rw [step_drain] at hstep
    exact some.inj hstep ▸ hf.onConnection ..
  | broadcastHeartbeat tsMs => exact some.inj hstep ▸ hf.broadcastHeartbeat tsMs
  | checkTimeouts now timeoutNs => exact some.inj hstep ▸ hf.checkTimeouts now timeoutNs
  | evict now ttlNs => exact some.inj hstep ▸ hf.evict now ttlNs

/-- **One event.** -/
theorem Shown.step (h : f.Shown limits c) (hf : f.Sound limits) (hmax : 0 < limits.maxOutbound)
    (hfits : f.Fitting event) (hsparing : Sparing limits c f event) (htold : Told limits c f event)
    (hstep : f.step limits event = some f') : f'.Shown limits c := by
  cases event with
  | record =>
    obtain ⟨_, hrun, rfl⟩ := map_eq_some_iff.1 hstep
    exact h.record hf hmax hfits hsparing htold hrun
  | gap => exact some.inj hstep ▸ h.gap hf
  | connect now => exact some.inj hstep ▸ h.connect hf now
  | disconnect connId =>
    obtain ⟨-, rfl⟩ := handle_some hstep
    exact h.fewer (fewer_removeConnection f.state connId)
  | subscribe =>
    obtain ⟨hconnId, rfl⟩ := handle_some hstep
    exact h.subscribe hf hmax hsparing hconnId
  | unsubscribe connId x =>
    obtain ⟨-, rfl⟩ := handle_some hstep
    exact h.fewer (fewer_onUnsubscribe f.state connId x)
  | heartbeat now connId timestampMs =>
    obtain ⟨-, rfl⟩ := handle_some hstep
    exact h.heartbeat now connId timestampMs
  | drain => exact h.drain hstep
  | broadcastHeartbeat tsMs => exact some.inj hstep ▸ h.broadcastHeartbeat tsMs
  | checkTimeouts now timeoutNs => exact some.inj hstep ▸ h.checkTimeouts now timeoutNs
  | evict now ttlNs => exact some.inj hstep ▸ h.fewer (fewer_evict hf.subs now ttlNs)

end Feed

end Rsx.Marketdata
