import Rsx.Marketdata.Refinement
import Rsx.Marketdata.SlowClients

/-!
# Eviction

A sweep drops the book of a symbol that nobody follows and that had no record for a while, whether
or not orders rest in it.  The next insert opens an empty book.  The snapshot of a symbol is that of
the matching engine as long as the sweeps find only empty books to drop.  -/

namespace Rsx.Marketdata

open Function Book Book.Orderbook Matching List Option MarketDataState

/-! ## The books of the server -/

structure SameBooks (st st' : MarketDataState) : Prop where
  books : st'.books = st.books
  maxSymbols : st'.maxSymbols = st.maxSymbols
  baseConfig : st'.baseConfig = st.baseConfig
  bookCapacity : st'.bookCapacity = st.bookCapacity

theorem SameBooks.refl (st : MarketDataState) : SameBooks st st :=
  ⟨rfl, rfl, rfl, rfl⟩

theorem SameBooks.trans {st st₁ st₂ : MarketDataState} (h : SameBooks st st₁)
    (h' : SameBooks st₁ st₂) : SameBooks st st₂ :=
  ⟨h'.1.trans h.1, h'.2.trans h.2, h'.3.trans h.3, h'.4.trans h.4⟩

theorem sameBooks_foldl {α : Type*} {step : MarketDataState → α → MarketDataState}
    (hstep : ∀ st a, SameBooks st (step st a)) (l : List α) (st : MarketDataState) :
    SameBooks st (l.foldl step st) := by
  induction l generalizing st with
  | nil => exact .refl st
  | cons a l ih => exact (hstep st a).trans (ih _)

theorem sameBooks_resendSnapshot (st : MarketDataState) (x depth maxOutbound : Nat) :
    SameBooks st (st.resendSnapshot x depth maxOutbound) := by
  unfold resendSnapshot
  cases st.snapshotMsg x depth with
  | none => exact .refl st
  | some =>
    refine sameBooks_foldl (fun st c => ?_) _ st
    split_ifs
    · rw [pushToClient_eq]
      exact ⟨rfl, rfl, rfl, rfl⟩
    · exact .refl st

theorem Feed.sameBooks {limits : Limits} {f f' : Feed} {event : FeedEvent}
    (hrecord : ∀ now x r, event ≠ .record now x r) (hevict : ∀ now ttlNs, event ≠ .evict now ttlNs)
    (hstep : f.step limits event = some f') : SameBooks f.state f'.state := by
  cases event with
  | record now x r => exact absurd rfl (hrecord now x r)
  | evict now ttlNs => exact absurd rfl (hevict now ttlNs)
  | gap =>
    cases hstep
    exact Feed.gap_induction (P := SameBooks f.state) ⟨rfl, rfl, rfl, rfl⟩
      fun st x h => h.trans (sameBooks_resendSnapshot st x _ _)
  | connect | broadcastHeartbeat => exact some.inj hstep ▸ ⟨rfl, rfl, rfl, rfl⟩
  | subscribe =>
    obtain ⟨-, rfl⟩ := Feed.handle_some hstep
    rw [Feed.onSubscribe_eq]
    split_ifs
    · exact ⟨rfl, rfl, rfl, rfl⟩
    · exact ⟨rfl, rfl, rfl, rfl⟩
  | disconnect | unsubscribe =>
    obtain ⟨-, rfl⟩ := Feed.handle_some hstep
    exact ⟨rfl, rfl, rfl, rfl⟩
  | heartbeat =>
    obtain ⟨-, rfl⟩ := Feed.handle_some hstep
    rw [Feed.onHeartbeat_eq]
    exact ⟨rfl, rfl, rfl, rfl⟩
  | drain =>
    rw [Feed.step_drain] at hstep
    exact some.inj hstep ▸ ⟨rfl, rfl, rfl, rfl⟩
  | checkTimeouts =>
    cases hstep
    exact sameBooks_foldl
      (fun st c => (⟨rfl, rfl, rfl, rfl⟩ : SameBooks st (st.removeConnection c)))
      _ f.state

/-- The book of a symbol shows a ledger; without a book no order rests. -/
def BookShows (st : MarketDataState) (x : Nat) (L : Ledger) : Prop :=
  match st.books x with
  | none => L = fun _ => none
  | some sh => Shows sh L ∧ sh.book.orders.capacity = st.bookCapacity ∧
      sh.book.config.tickSize = st.baseConfig.tickSize

section BookShows

variable {st st' : MarketDataState} {x x' : Nat} {L : Ledger} {r : Record} {sh : ShadowBook}
  {now maxOutbound : Nat}

theorem BookShows.of_some (h : BookShows st x L) (hbook : st.books x = some sh) :
    Shows sh L ∧ sh.book.orders.capacity = st.bookCapacity ∧
      sh.book.config.tickSize = st.baseConfig.tickSize := by
  unfold BookShows at h
  rwa [hbook] at h

theorem BookShows.of_none (h : BookShows st x L) (hbook : st.books x = none) :
    L = fun _ => none := by
  unfold BookShows at h
  rwa [hbook] at h

theorem bookShows_of_some (hbook : st.books x = some sh) (h : Shows sh L)
    (hcap : sh.book.orders.capacity = st.bookCapacity)
    (htick : sh.book.config.tickSize = st.baseConfig.tickSize) : BookShows st x L := by
  unfold BookShows
  rw [hbook]
  exact ⟨h, hcap, htick⟩

theorem BookShows.congr (h : BookShows st x L) (hbook : st'.books x = st.books x)
    (hcap : st'.bookCapacity = st.bookCapacity) (hconfig : st'.baseConfig = st.baseConfig) :
    BookShows st' x L := by
  unfold BookShows at h ⊢
  rwa [hbook, hcap, hconfig]

theorem BookShows.bookFor (h : BookShows st x L) (hcap : st.bookCapacity ≤ NONE)
    (htick : 1000 * max st.baseConfig.tickSize 1 ≤ i64Max)
    (hadmits : Admits st.bookCapacity (maxPrice st.baseConfig.tickSize) L r)
    (hbefore : st.bookFor x r = some sh) :
    Shows sh L ∧ sh.book.orders.capacity = st.bookCapacity ∧
      sh.book.config.tickSize = st.baseConfig.tickSize := by
  cases r with
  | orderInserted tsNs userId orderIdHi orderIdLo price =>
    obtain ⟨hprice, hmax, -⟩ := hadmits
    have hbefore : (st.ensureBook 0 x price).books x = some sh := hbefore
    unfold ensureBook at hbefore
    by_cases hx : x < st.maxSymbols
    · rw [if_pos hx] at hbefore
      cases hbook : st.books x with
      | some =>
        simp only [hbook] at hbefore
        exact h.of_some (hbook.trans hbefore)
      | none =>
        simp only [hbook, update_self, if_pos hprice] at hbefore
        cases hbefore
        have hsized : Sized st.baseConfig.tickSize price := by
          refine ⟨htick, hmax, ?_⟩
          omega
        rw [h.of_none hbook]
        exact ⟨Shows.new x hcap hsized, rfl, rfl⟩
    · rw [if_neg hx] at hbefore
      exact h.of_some hbefore
  | _ => exact h.of_some hbefore

theorem Admits.fits {room : Nat} {top : Int} (hadmits : Admits room top L r) (h : Shows sh L) :
    sh.Fits r := by
  cases r with
  | orderInserted =>
    obtain ⟨-, -, hqty, -, _, _, hl, hsum, -⟩ := hadmits
    rw [← h.total_eq hl] at hsum
    exact ⟨hqty, hsum⟩
  | _ => trivial

/-- **A record**, in the books of the server. -/
theorem BookShows.record (h : BookShows st x L) (hcap : st.bookCapacity ≤ NONE)
    (htick : 1000 * max st.baseConfig.tickSize 1 ≤ i64Max) (hx : x < st.maxSymbols)
    (hadmits : Admits st.bookCapacity (maxPrice st.baseConfig.tickSize) L r)
    (hnodup : (st.subs.clientsForSymbol x).Nodup)
    (hrun : st.applyRecord now x r maxOutbound = some st') : BookShows st' x (L.record r) := by
  obtain ⟨hsetup, hpasses | ⟨_, _, _, htakes⟩⟩ :=
    applyRecord_spec hnodup hrun
  · have hignored := hpasses.ignored hx
    have hsame : BookShows st' x L :=
      h.congr (congrFun hpasses.books x) hsetup.bookCapacity hsetup.baseConfig
    cases r with
    | orderInserted => exact hignored.elim
    | orderCancelled tsNs userId orderIdHi orderIdLo remainingQty reduceOnly tif =>
      have hnone := h.of_none hignored
      have hrecord : L.record
          (.orderCancelled tsNs userId orderIdHi orderIdLo remainingQty reduceOnly tif) = L := by
        rw [hnone]
        exact update_eq_self ..
      rwa [hrecord]
    | fill =>
      -- There is no order to be filled.
      obtain ⟨-, x, hx, -⟩ := hadmits
      rw [h.of_none hignored] at hx
      cases hx
    | _ => exact hsame
  · obtain ⟨hshows, hcapacity, htickSize⟩ := h.bookFor hcap htick hadmits htakes.before
    rw [← htickSize] at hadmits
    obtain ⟨_, _, hrun₁, hshows₁, hcap₁, hconfig₁⟩ :=
      hshows.applyRecord hcapacity.ge hadmits
    obtain ⟨rfl, -⟩ := Prod.mk.inj (some.inj (hrun₁.symm.trans htakes.applied))
    refine bookShows_of_some ((congrFun htakes.books x).trans (update_self ..)) hshows₁
      ?_ ?_
    · rw [hcap₁, hcapacity, hsetup.bookCapacity]
    · rw [hconfig₁, htickSize, hsetup.baseConfig]

theorem BookShows.other (h : BookShows st x' L) (hne : x' ≠ x)
    (hnodup : (st.subs.clientsForSymbol x).Nodup)
    (hrun : st.applyRecord now x r maxOutbound = some st') : BookShows st' x' L := by
  obtain ⟨hsetup, hpasses | ⟨_, _, _, htakes⟩⟩ :=
    applyRecord_spec hnodup hrun
  · exact h.congr (congrFun hpasses.books x') hsetup.bookCapacity hsetup.baseConfig
  · refine h.congr ?_ hsetup.bookCapacity hsetup.baseConfig
    exact (congrFun htakes.books x').trans (update_of_ne hne ..)

theorem Shows.eq_none_of_resting (h : Shows sh L) (hempty : sh.book.resting = []) :
    L = fun _ => none := by
  obtain ⟨_, _, hk⟩ := h.kept
  funext id
  refine eq_none_iff_forall_ne_some.2 fun x hx => ?_
  obtain ⟨handle, _, -, ho, -, -⟩ := h.find hx
  obtain ⟨hactive, rfl⟩ := ShadowBook.slot_of_held ho
  obtain ⟨t, ht⟩ := (hk.queued.active handle).1 hactive
  have hmem : (sh.book.slot handle).resting ∈ sh.book.resting :=
    hk.queued.mem_resting.2 ⟨t, sh.book.entry handle, mem_map_of_mem ht, rfl⟩
  rw [hempty] at hmem
  exact not_mem_nil hmem

theorem BookShows.evict (h : BookShows st x L) (hx : x < st.maxSymbols) {ttlNs : Nat}
    (hempty : st.Stale now ttlNs x → ∀ sh ∈ st.books x, sh.book.resting = []) :
    BookShows (st.evictStaleBooks now ttlNs) x L := by
  obtain ⟨hswept, hbooks⟩ := st.evictStaleBooks_spec now ttlNs
  by_cases hstale : st.Stale now ttlNs x
  · have hnone : (st.evictStaleBooks now ttlNs).books x = none := by
      rw [hbooks, if_pos ⟨hx, hstale⟩]
    have hledger : L = fun _ => none := by
      cases hbook : st.books x with
      | none => exact h.of_none hbook
      | some sh => exact (h.of_some hbook).1.eq_none_of_resting (hempty hstale sh hbook)
    unfold BookShows
    rw [hnone]
    exact hledger
  · refine h.congr ?_ hswept.bookCapacity hswept.baseConfig
    rw [hbooks, if_neg fun hboth => hstale hboth.2]

theorem BookShows.snapshotMsg (h : BookShows st x L) (hx : x < st.maxSymbols) (depth : Nat)
    {n : Nat} {held : Nat → Option Resting} (hl : Lists n held L) :
    ∃ snapshot, st.snapshotMsg x depth = some snapshot ∧
      snapshot.bids = (ladder (quotesOf n held) .buy).take depth ∧
      snapshot.asks = (ladder (quotesOf n held) .sell).take depth := by
  unfold MarketDataState.snapshotMsg
  rw [if_pos hx]
  cases hbook : st.books x with
  | none =>
    have hempty : quotesOf n held = [] := by
      refine filterMap_eq_nil_iff.2 fun handle _ => ?_
      cases hh : held handle with
      | none => rfl
      | some o =>
        have hquoted := hl.quoted handle o hh
        rw [h.of_none hbook] at hquoted
        cases hquoted
    rw [hempty]
    exact ⟨_, rfl, take_nil.symm, take_nil.symm⟩
  | some sh =>
    obtain ⟨hshows, -, -⟩ := h.of_some hbook
    obtain ⟨_, _, hk⟩ := hshows.kept
    have hladder : ∀ s, sh.collectLevels s depth = (ladder (quotesOf n held) s).take depth := by
      intro s
      rw [ShadowBook.collectLevels_eq hk.queued hshows.total,
        ladder_congr (levelOf_perm (hshows.quotes_perm hl) s)]
    exact ⟨_, rfl, hladder .buy, hladder .sell⟩

end BookShows

/-! ## The market -/

/-- The matching engines of the symbols, how many records of each have arrived, and the server. -/
structure Market where
  engines : Nat → Engine
  taken : Nat → Nat
  feed : Feed

inductive MarketAction
  | trade (symbolId : Nat) (a : Action)
  | deliver (now symbolId : Nat)
  | server (event : FeedEvent)

namespace Market

def new (config : Nat → BookConfig) (capacity : Nat → Nat) (feed : Feed) : Market where
  engines := fun x => Engine.new (config x) (capacity x)
  taken := fun _ => 0
  feed := feed

def sent (m : Market) (x : Nat) : List Record :=
  (m.engines x).wal.records.map Prod.snd

def step (limits : Limits) (m : Market) : MarketAction → Option Market
  | .trade x a => ((m.engines x).step a).map fun e =>
    { m with engines := update m.engines x e }
  | .deliver now x => ((m.sent x)[m.taken x]?).bind fun r =>
    (m.feed.step limits (.record now x r)).map fun feed =>
      { m with taken := update m.taken x (m.taken x + 1), feed := feed }
  | .server (.record ..) => none
  | .server event => (m.feed.step limits event).map fun feed => { m with feed := feed }

def arrived (m : Market) (x : Nat) : Ledger :=
  Ledger.records (fun _ => none) ((m.sent x).take (m.taken x))

/-- The shadow book has room for the orders and for their prices. -/
def Accommodates (m : Market) : MarketAction → Prop
  | .trade x a => x < m.feed.state.maxSymbols →
      Modest (maxPrice m.feed.state.baseConfig.tickSize) (m.engines x) a ∧
        FreshId (m.engines x) a ∧ Roomy m.feed.state.bookCapacity (m.engines x) a
  | _ => True

def SweepsEmpty (m : Market) : MarketAction → Prop
  | .server (.evict now ttlNs) => ∀ x < m.feed.state.maxSymbols, m.feed.state.Stale now ttlNs x →
      ∀ sh ∈ m.feed.state.books x, sh.book.resting = []
  | _ => True

instance (m : Market) : ∀ action, Decidable (m.Accommodates action)
  | .trade .. => inferInstanceAs (Decidable (_ → _ ∧ _ ∧ _))
  | .deliver .. | .server .. => .isTrue trivial

instance (m : Market) : ∀ action, Decidable (m.SweepsEmpty action)
  | .server (.evict ..) => inferInstanceAs (Decidable (∀ x < _, _ → ∀ sh ∈ _, _))
  | .server (.record ..) | .server .gap | .server (.connect ..) | .server (.disconnect ..)
  | .server (.subscribe ..) | .server (.unsubscribe ..) | .server (.heartbeat ..)
  | .server (.drain ..) | .server (.broadcastHeartbeat ..) | .server (.checkTimeouts ..)
  | .trade .. | .deliver .. => .isTrue trivial

/-- One symbol: its book shows what arrived, and what is under way can be applied to it. -/
structure Follows (m : Market) (x : Nat) : Prop where
  taken : m.taken x ≤ (m.sent x).length
  published : Published (m.engines x) (Ledger.records (fun _ => none) (m.sent x))
  shows : BookShows m.feed.state x (m.arrived x)
  admits : AdmitsAll m.feed.state.bookCapacity (maxPrice m.feed.state.baseConfig.tickSize)
    (m.arrived x) ((m.sent x).drop (m.taken x))

structure Following (limits : Limits) (m : Market) : Prop where
  sound : m.feed.Sound limits
  sized : 1000 * max m.feed.state.baseConfig.tickSize 1 ≤ i64Max
  outside : ∀ x, m.feed.state.maxSymbols ≤ x → m.feed.state.books x = none
  follows : ∀ x < m.feed.state.maxSymbols, m.Follows x

variable {limits : Limits} {m m' : Market} {action : MarketAction}
  {a : Action} {e : Engine} {now : Nat} {feed : Feed} {x : Nat}

/-- **An action of an engine.**  Its records are under way. -/
theorem Follows.trade (h : m.Follows x)
    (hmodest : Modest (maxPrice m.feed.state.baseConfig.tickSize) (m.engines x) a)
    (hfresh : FreshId (m.engines x) a) (hroom : Roomy m.feed.state.bookCapacity (m.engines x) a)
    (hstep : (m.engines x).step a = some e) :
    ({ m with engines := update m.engines x e } : Market).Follows x := by
  set m' : Market := { m with engines := update m.engines x e }
  obtain ⟨records, hwal⟩ := Engine.step_wal hstep
  obtain ⟨hadmits, hpublished⟩ := h.published.step hmodest hfresh hstep (hroom _ hstep)
  rw [newRecords_eq hwal] at hadmits hpublished
  have hengine : m'.engines x = e := update_self ..
  have hsent : m'.sent x = m.sent x ++ records := by
    unfold sent
    rw [hengine, hwal, WalWriter.map_snd_appendAll]
  have harrived : m'.arrived x = m.arrived x := by
    unfold arrived
    rw [hsent, take_append_of_le_length h.taken]
  refine ⟨?_, ?_, ?_, ?_⟩
  · rw [hsent, length_append]
    exact h.taken.trans (Nat.le_add_right ..)
  · rw [hengine, hsent, records_append]
    exact hpublished
  · rw [harrived]
    exact h.shows
  · rw [harrived, hsent, drop_append_of_le_length h.taken]
    refine h.admits.append ?_
    rw [arrived, ← records_append, take_append_drop]
    exact hadmits

/-- **The next record arrives.** -/
theorem Follows.deliver {r : Record} (h : m.Follows x)
    (hsound : m.feed.Sound limits) (hsized : 1000 * max m.feed.state.baseConfig.tickSize 1 ≤ i64Max)
    (hx : x < m.feed.state.maxSymbols) (hnext : (m.sent x)[m.taken x]? = some r)
    {st' : MarketDataState}
    (hrun : m.feed.state.applyRecord now x r limits.maxOutbound = some st')
    (hsetup : m.feed.state.SameSetup st') :
    ({ m with
        taken := update m.taken x (m.taken x + 1)
        feed := { m.feed with state := st' } } : Market).Follows x := by
  set m' : Market := { m with
    taken := update m.taken x (m.taken x + 1)
    feed := { m.feed with state := st' } }
  obtain ⟨hlt, hget⟩ := List.getElem?_eq_some_iff.1 hnext
  have htaken : m'.taken x = m.taken x + 1 := update_self ..
  have hdrop : (m.sent x).drop (m.taken x) = r :: (m.sent x).drop (m.taken x + 1) := by
    rw [drop_eq_getElem_cons hlt, hget]
  have harrived : m'.arrived x = (m.arrived x).record r := by
    show Ledger.records _ ((m.sent x).take (m'.taken x)) = _
    rw [htaken, take_add_one, hnext, records_append]
    rfl
  have hadmits := h.admits
  rw [hdrop] at hadmits
  refine ⟨?_, h.published, ?_, ?_⟩
  · rw [htaken]
    exact hlt
  · rw [harrived]
    exact h.shows.record hsound.capacity hsized hx hadmits.1 (hsound.subs.nodup x) hrun
  · rw [harrived, htaken]
    rw [hsetup.bookCapacity, hsetup.baseConfig]
    exact hadmits.2 _ rfl

theorem Follows.congr (h : m.Follows x) (hengine : m'.engines x = m.engines x)
    (htaken : m'.taken x = m.taken x)
    (hcap : m'.feed.state.bookCapacity = m.feed.state.bookCapacity)
    (hconfig : m'.feed.state.baseConfig = m.feed.state.baseConfig)
    (hshows : BookShows m'.feed.state x (m.arrived x)) : m'.Follows x := by
  have hsent : m'.sent x = m.sent x := by
    unfold sent
    rw [hengine]
  have harrived : m'.arrived x = m.arrived x := by
    unfold arrived
    rw [hsent, htaken]
  refine ⟨?_, ?_, ?_, ?_⟩
  · rw [hsent, htaken]
    exact h.taken
  · rw [hengine, hsent]
    exact h.published
  · rw [harrived]
    exact hshows
  · rw [hcap, hconfig, harrived, hsent, htaken]
    exact h.admits

section

variable (h : m.Following limits)
include h

theorem Following.trade {x : Nat}
    (hok : m.Accommodates (.trade x a)) (hstep : (m.engines x).step a = some e) :
    ({ m with engines := update m.engines x e } : Market).Following limits where
  sound := h.sound
  sized := h.sized
  outside := h.outside
  follows := by
    intro x' hx'
    rcases eq_or_ne x' x with rfl | hne
    · obtain ⟨hmodest, hfresh, hroom⟩ := hok hx'
      exact (h.follows x' hx').trade hmodest hfresh hroom hstep
    · have hx' := h.follows x' hx'
      exact hx'.congr (update_of_ne hne ..) rfl rfl rfl hx'.shows

theorem Following.deliver {x : Nat} {r : Record} (hnext : (m.sent x)[m.taken x]? = some r)
    (hstep : m.feed.step limits (.record now x r) = some feed) :
    ({ m with
        taken := update m.taken x (m.taken x + 1)
        feed := feed } : Market).Following limits := by
  have hfits : m.feed.Fitting (.record now x r) := by
    intro sh hsh
    by_cases hx : x < m.feed.state.maxSymbols
    · obtain ⟨hlt, hget⟩ := List.getElem?_eq_some_iff.1 hnext
      have hadmits := (h.follows x hx).admits
      rw [drop_eq_getElem_cons hlt, hget] at hadmits
      exact hadmits.1.fits
        ((h.follows x hx).shows.bookFor h.sound.capacity h.sized hadmits.1 hsh).1
    · -- There is no book outside the table.
      cases r with
      | orderInserted tsNs userId orderIdHi orderIdLo price =>
        have hsh : (m.feed.state.ensureBook 0 x price).books x = some sh := hsh
        unfold ensureBook at hsh
        rw [if_neg hx, h.outside x (Nat.not_lt.1 hx)] at hsh
        cases hsh
      | _ => trivial
  have hsound := h.sound.step hfits hstep
  obtain ⟨st', hrun, rfl⟩ := map_eq_some_iff.1 hstep
  have hspec := applyRecord_spec (h.sound.subs.nodup x) hrun
  have hsetup := hspec.1
  refine ⟨hsound, ?_, ?_, ?_⟩
  · rw [hsetup.baseConfig]
    exact h.sized
  · intro x' hx'
    replace hx' : m.feed.state.maxSymbols ≤ x' := hsetup.maxSymbols ▸ hx'
    rcases hspec.2 with hpasses | ⟨sh, sh', update, htakes⟩
    · rw [hpasses.books]
      exact h.outside x' hx'
    · have hne : x' ≠ x := by
        rintro rfl
        exact absurd htakes.lt (Nat.not_lt.2 hx')
      rw [htakes.books, update_of_ne hne]
      exact h.outside x' hx'
  · intro x' hx'
    replace hx' : x' < m.feed.state.maxSymbols := hsetup.maxSymbols ▸ hx'
    rcases eq_or_ne x' x with rfl | hne
    · exact (h.follows x' hx').deliver h.sound h.sized hx' hnext hrun hsetup
    · have hfollows := h.follows x' hx'
      exact hfollows.congr rfl (update_of_ne hne ..) hsetup.bookCapacity
        hsetup.baseConfig (hfollows.shows.other hne (h.sound.subs.nodup x) hrun)

theorem Following.server {event : FeedEvent}
    (hrecord : ∀ now x r, event ≠ .record now x r) (hok : m.SweepsEmpty (.server event))
    (hstep : m.feed.step limits event = some feed) :
    ({ m with feed := feed } : Market).Following limits := by
  have hfits : m.feed.Fitting event := by
    cases event with
    | record now x r => exact absurd rfl (hrecord now x r)
    | _ => trivial
  have hsound := h.sound.step hfits hstep
  by_cases hevict : ∃ now ttlNs, event = .evict now ttlNs
  · obtain ⟨now, ttlNs, rfl⟩ := hevict
    cases hstep
    obtain ⟨hswept, hbooks⟩ := m.feed.state.evictStaleBooks_spec now ttlNs
    refine ⟨hsound, ?_, ?_, ?_⟩
    · rw [hswept.baseConfig]
      exact h.sized
    · intro x hx
      have hx : m.feed.state.maxSymbols ≤ x := hswept.maxSymbols ▸ hx
      rw [hbooks, h.outside x hx, ite_self]
    · intro x hx
      have hx : x < m.feed.state.maxSymbols := hswept.maxSymbols ▸ hx
      have hfollows := h.follows x hx
      exact hfollows.congr rfl rfl hswept.bookCapacity hswept.baseConfig
        (hfollows.shows.evict hx (hok x hx))
  · have hsame := Feed.sameBooks hrecord (fun now ttlNs heq => hevict ⟨now, ttlNs, heq⟩) hstep
    refine ⟨hsound, ?_, ?_, ?_⟩
    · rw [hsame.baseConfig]
      exact h.sized
    · intro x hx
      rw [hsame.books]
      exact h.outside x (hsame.maxSymbols ▸ hx)
    · intro x hx
      have hfollows := h.follows x (hsame.maxSymbols ▸ hx)
      exact hfollows.congr rfl rfl hsame.bookCapacity hsame.baseConfig
        (hfollows.shows.congr (congrFun hsame.books x) hsame.bookCapacity hsame.baseConfig)

/-- **One step of the market.** -/
theorem Following.step (hok : m.Accommodates action)
    (hsweeps : m.SweepsEmpty action) (hstep : m.step limits action = some m') :
    m'.Following limits := by
  cases action with
  | trade =>
    obtain ⟨_, he, rfl⟩ := map_eq_some_iff.1 hstep
    exact h.trade hok he
  | deliver =>
    obtain ⟨r, hnext, hrest⟩ := bind_eq_some_iff.1 hstep
    obtain ⟨feed, hfeed, rfl⟩ := map_eq_some_iff.1 hrest
    exact h.deliver hnext hfeed
  | server event =>
    have hrecord : ∀ now x r, event ≠ .record now x r := by
      rintro now x r rfl
      cases hstep
    have hserver : m.step limits (.server event) =
        (m.feed.step limits event).map fun feed => { m with feed := feed } := by
      cases event with
      | record now x r => exact absurd rfl (hrecord now x r)
      | _ => rfl
    rw [hserver] at hstep
    obtain ⟨_, hfeed, rfl⟩ := map_eq_some_iff.1 hstep
    exact h.server hrecord hsweeps hfeed

end

theorem following_new {config : Nat → BookConfig} {capacity : Nat → Nat} (limits : Limits)
    (maxSymbols : Nat) {baseConfig : BookConfig} {bookCapacity : Nat} (midPriceDefault : Int)
    (hcap : ∀ x, capacity x ≤ NONE) (hbook : bookCapacity ≤ NONE)
    (hsized : 1000 * max baseConfig.tickSize 1 ≤ i64Max) :
    (new config capacity (Feed.new maxSymbols baseConfig bookCapacity midPriceDefault)).Following
      limits where
  sound := Feed.sound_new limits maxSymbols baseConfig midPriceDefault hbook
  sized := hsized
  outside := fun _ _ => rfl
  follows := fun x _ => ⟨Nat.le_refl _, Published.new (config x) (hcap x), rfl, trivial⟩

theorem Follows.exists_lists (h : m.Follows x) : ∃ n held, Lists n held (m.arrived x) := by
  cases hbook : m.feed.state.books x with
  | none => exact ⟨0, fun _ => none, h.shows.of_none hbook ▸ Lists.empty 0⟩
  | some => exact ⟨_, _, (h.shows.of_some hbook).1.lists⟩

end Market

/-- **Sweeps lose nothing** as long as they find no order in the books they drop: a snapshot shows
the orders that rest after the records that arrived, and those of the engine once all have
arrived. -/
theorem eviction_keeps_orders {limits : Limits} {config : Nat → BookConfig} {capacity : Nat → Nat}
    {maxSymbols : Nat} {baseConfig : BookConfig} {bookCapacity : Nat} {midPriceDefault : Int}
    {actions : List MarketAction} {m : Market} (hcap : ∀ x, capacity x ≤ NONE)
    (hbook : bookCapacity ≤ NONE) (hsized : 1000 * max baseConfig.tickSize 1 ≤ i64Max)
    (hok : Along (Market.step limits) Market.Accommodates
      (.new config capacity (.new maxSymbols baseConfig bookCapacity midPriceDefault)) actions)
    (hsweeps : Along (Market.step limits) Market.SweepsEmpty
      (.new config capacity (.new maxSymbols baseConfig bookCapacity midPriceDefault)) actions)
    (hrun : run (Market.step limits)
      (.new config capacity (.new maxSymbols baseConfig bookCapacity midPriceDefault)) actions =
        some m) :
    ∀ x < m.feed.state.maxSymbols, ∀ depth, ∃ snapshot,
      m.feed.state.snapshotMsg x depth = some snapshot ∧ snapshot.symbolId = x ∧
      (∃ n held, Lists n held (m.arrived x) ∧
        snapshot.bids = (ladder (quotesOf n held) .buy).take depth ∧
        snapshot.asks = (ladder (quotesOf n held) .sell).take depth) ∧
      (m.taken x = (m.sent x).length →
        snapshot.bids = (ladder (quotes (m.engines x).book) .buy).take depth ∧
        snapshot.asks = (ladder (quotes (m.engines x).book) .sell).take depth) := by
  have hfollowing : m.Following limits := run_invariant (I := Market.Following limits)
    (fun h ⟨hok, hsweeps⟩ hstep => h.step hok hsweeps hstep)
    (Market.following_new limits maxSymbols midPriceDefault hcap hbook hsized)
    (hok.and hsweeps) hrun
  intro x hx depth
  have hfollows := hfollowing.follows x hx
  obtain ⟨n, held, hl⟩ := hfollows.exists_lists
  obtain ⟨snapshot, hsnapshot, hbids, hasks⟩ := hfollows.shows.snapshotMsg hx depth hl
  refine ⟨snapshot, hsnapshot, (hfollowing.sound.books.snapshotMsg hsnapshot).1,
    ⟨n, held, hl, hbids, hasks⟩, fun hall => ?_⟩
  have hpublished : Published (m.engines x) (m.arrived x) := by
    rw [Market.arrived, hall, take_length]
    exact hfollows.published
  obtain ⟨_, _, hk⟩ := hpublished.healthy.kept
  have hladder : ∀ s, ladder (quotesOf n held) s = ladder (quotes (m.engines x).book) s := by
    intro s
    refine ladder_congr (levelOf_perm ?_ s)
    exact (hl.quotes_perm hpublished.lists).trans (quotes_perm_quotesOf hk.queued).symm
  rw [← hladder, ← hladder]
  exact ⟨hbids, hasks⟩

theorem ask_fits : (51000 : Int) ≤ i64Max := by decide

theorem bid_fits : (49000 : Int) ≤ i64Max := by decide

/-- The only order is cancelled, a sweep drops the book, and another order opens it again. -/
def sweptEmpty : List MarketAction :=
  [.trade 1 (.limit 1 1 1 0 51000 5 ask_fits),
    .trade 1 (.cancel { userId := 1, orderIdLo := 1 } 0)] ++
    List.replicate 6 (.deliver 20 1) ++
    [.server (.evict 500 100), .trade 1 (.limit 2 2 0 0 49000 3 bid_fits)] ++
    List.replicate 3 (.deliver 600 1)

theorem eviction_keeps_orders_sweptEmpty : ∃ m snapshot, run (Market.step ⟨8, 10⟩)
        (.new (fun _ => ⟨1, 1000, 1⟩) (fun _ => 8) (.new 3 ⟨0, 1000, 1⟩ 8 100)) sweptEmpty =
          some m ∧
      m.feed.state.snapshotMsg 1 10 = some snapshot ∧
      snapshot.bids = [⟨49000, 3, 1⟩] ∧ snapshot.asks = [] := by
  obtain ⟨m, hrun, hsymbols, htaken, hbuy, hsell⟩ : ∃ m, run (Market.step ⟨8, 10⟩)
        (.new (fun _ => ⟨1, 1000, 1⟩) (fun _ => 8) (.new 3 ⟨0, 1000, 1⟩ 8 100)) sweptEmpty =
          some m ∧
      1 < m.feed.state.maxSymbols ∧ m.taken 1 = (m.sent 1).length ∧
      ladder (quotes (m.engines 1).book) .buy = [⟨49000, 3, 1⟩] ∧
      ladder (quotes (m.engines 1).book) .sell = [] := by
    decide +kernel
  obtain ⟨snapshot, hsnapshot, -, -, hall⟩ := eviction_keeps_orders (fun _ => by decide) (by decide)
    (by decide) (by decide +kernel) (by decide +kernel) hrun 1 hsymbols 10
  obtain ⟨hbids, hasks⟩ := hall htaken
  rw [hbuy] at hbids
  rw [hsell] at hasks
  exact ⟨m, snapshot, hrun, hsnapshot, hbids, hasks⟩

/-- A resting order that nobody follows: the sweep drops its book.  The snapshot of a client that
comes later is empty, and a fill of the order finds no book. -/
theorem eviction_drops_resting_order : (run (Market.step ⟨8, 10⟩)
      (.new (fun _ => ⟨1, 1000, 1⟩) (fun _ => 8) (.new 3 ⟨0, 1000, 1⟩ 8 100))
      ([.trade 1 (.limit 1 1 1 0 51000 5)] ++ List.replicate 3 (.deliver 20 1) ++
        [.server (.evict 500 100), .server (.connect 510), .server (.subscribe 0 1 2),
          .trade 1 (.limit 2 2 0 0 51000 2)] ++
        List.replicate 3 (.deliver 600 1))).map (fun m =>
        (m.taken 1, (m.sent 1).length, (m.feed.state.snapshotMsg 1 10).map L2Snapshot.asks,
          ladder (quotes (m.engines 1).book) .sell)) =
      some (6, 6, some [], [⟨51000, 3, 1⟩]) := by
  decide +kernel

end Rsx.Marketdata
