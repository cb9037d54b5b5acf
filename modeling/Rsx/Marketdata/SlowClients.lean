import Rsx.Marketdata.Convergence

/-!
# Slow clients and short ladders

Runs of the feed from an empty server: what a client has when its queue is empty, and the first
levels it has at any time.  -/

namespace Rsx.Marketdata

open Book ClientBook

namespace Feed

variable {limits : Limits} {f f' : Feed} {event : FeedEvent} {c x : Nat}

def new (maxSymbols : Nat) (baseConfig : BookConfig) (bookCapacity : Nat) (midPriceDefault : Int) :
    Feed where
  state := MarketDataState.new maxSymbols baseConfig bookCapacity midPriceDefault

theorem sound_new (limits : Limits) (maxSymbols : Nat) (baseConfig : BookConfig)
    {bookCapacity : Nat} (midPriceDefault : Int) (hcap : bookCapacity ≤ NONE) :
    (new maxSymbols baseConfig bookCapacity midPriceDefault).Sound limits where
  books := fun _ _ hsh => nomatch hsh
  subs := SubscriptionManager.wf_new _
  fresh := fun _ _ => ⟨rfl, fun _ => rfl⟩
  capacity := hcap

theorem shown_new (limits : Limits) (maxSymbols : Nat) (baseConfig : BookConfig)
    (bookCapacity : Nat) (midPriceDefault : Int) (c : Nat) :
    (new maxSymbols baseConfig bookCapacity midPriceDefault).Shown limits c :=
  fun _ hconn => nomatch hconn

def Shallow (limits : Limits) (f : Feed) : Prop :=
  ∀ x < f.state.maxSymbols, ∀ s, (f.state.levels x s).length ≤ limits.snapshotDepth

def StaysShallow (limits : Limits) (f : Feed) (event : FeedEvent) : Prop :=
  ∀ f' ∈ f.step limits event, f'.Shallow limits

theorem Shallow.told (h : f.Shallow limits) (c : Nat) (event : FeedEvent) :
    Told limits c f event := by
  cases event with
  | record now x =>
    intro hx _ conn _ sh hsh o _ _ _ level hlevel
    have hlength := h x hx o.side
    rw [MarketDataState.levels_of_some hsh] at hlength
    rw [List.getElem?_eq_none hlength] at hlevel
    cases hlevel
  | _ => trivial

instance (limits : Limits) (f : Feed) : Decidable (f.Shallow limits) :=
  decidable_of_iff (∀ x < f.state.maxSymbols,
    (f.state.levels x .buy).length ≤ limits.snapshotDepth ∧
      (f.state.levels x .sell).length ≤ limits.snapshotDepth)
    (forall₂_congr fun _ _ => ⟨fun h s => by cases s; exacts [h.1, h.2], fun h =>
      ⟨h .buy, h .sell⟩⟩)

instance (limits : Limits) (f : Feed) (event : FeedEvent) :
    Decidable (f.StaysShallow limits event) :=
  inferInstanceAs (Decidable (∀ f' ∈ f.step limits event, _))

end Feed

/-- **Slow clients converge.**  When the queue of a client is empty, what it received folds to the
levels of every symbol it follows. -/
theorem slow_client_converges {limits : Limits} {maxSymbols bookCapacity : Nat}
    {baseConfig : BookConfig} {midPriceDefault : Int} {events : List FeedEvent} {f : Feed} {c : Nat}
    (hcap : bookCapacity ≤ NONE) (hmax : 0 < limits.maxOutbound)
    (hfits : Along (Feed.step limits) Feed.Fitting
      (.new maxSymbols baseConfig bookCapacity midPriceDefault) events)
    (hshallow : Along (Feed.step limits) (Feed.StaysShallow limits)
      (.new maxSymbols baseConfig bookCapacity midPriceDefault) events)
    (hsparing : Along (Feed.step limits) (Feed.Sparing limits c)
      (.new maxSymbols baseConfig bookCapacity midPriceDefault) events)
    (hrun : run (Feed.step limits)
      (.new maxSymbols baseConfig bookCapacity midPriceDefault) events = some f)
    {conn : ConnectionState} (hconn : f.state.connections c = some conn)
    (hempty : conn.outbound = []) :
    ∀ x < f.state.maxSymbols, f.state.subs.hasDepth c x = true →
      ∀ s, (fold x (f.received c)).side s = f.state.levels x s := by
  have hstart : (Feed.new maxSymbols baseConfig bookCapacity midPriceDefault).Shallow limits :=
    fun _ _ _ => Nat.zero_le _
  obtain ⟨-, hshown, hshallow⟩ := run_invariant
    (I := fun f => f.Sound limits ∧ f.Shown limits c ∧ f.Shallow limits)
    (fun ⟨hf, h, hs⟩ ⟨⟨hfits, hstays⟩, hsparing⟩ hstep =>
      ⟨hf.step hfits hstep, h.step hf hmax hfits hsparing (hs.told c _) hstep, hstays _ hstep⟩)
    ⟨Feed.sound_new limits maxSymbols baseConfig midPriceDefault hcap,
      Feed.shown_new limits maxSymbols baseConfig bookCapacity midPriceDefault c, hstart⟩
    ((hfits.and hshallow).and hsparing) hrun
  intro x hx hdepth s
  have hsees := hshown conn hconn x hx hdepth s
  rw [hempty, List.append_nil] at hsees
  exact hsees.eq_of_length_le (hshallow x hx s)

def bid (orderIdLo : Nat) (price qty : Int) : Matching.Record :=
  .orderInserted 0 7 0 orderIdLo price qty .buy false .gtc

def bidCancelled (orderIdLo : Nat) : Matching.Record :=
  .orderCancelled 0 7 0 orderIdLo 0 false .gtc

/-- The queue of a client overflows and gets a new snapshot. -/
def overflowed : List FeedEvent :=
  [.connect 0, .subscribe 0 1 2, .record 5 1 (bid 1 100 3), .record 6 1 (bid 2 99 4), .drain 0]

theorem slow_client_converges_overflowed :
    ∃ f, run (Feed.step ⟨1, 10⟩) (.new 3 ⟨0, 1, 1⟩ 8 100) overflowed = some f ∧
      (fold 1 (f.received 0)).side .buy = [⟨100, 3, 1⟩, ⟨99, 4, 1⟩] := by
  obtain ⟨f, hrun, hqueue, hsymbols, hdepth, hlevels⟩ :
      ∃ f, run (Feed.step ⟨1, 10⟩) (.new 3 ⟨0, 1, 1⟩ 8 100) overflowed = some f ∧
        (f.state.connections 0).map ConnectionState.outbound = some [] ∧ 1 < f.state.maxSymbols ∧
        f.state.subs.hasDepth 0 1 = true ∧ f.state.levels 1 .buy = [⟨100, 3, 1⟩, ⟨99, 4, 1⟩] := by
    decide +kernel
  obtain ⟨_, hconn, hempty⟩ := Option.map_eq_some_iff.1 hqueue
  have hlevel := slow_client_converges (by decide) (by decide) (by decide +kernel)
    (by decide +kernel) (by decide +kernel) hrun hconn hempty 1 hsymbols hdepth .buy
  exact ⟨f, hrun, hlevel.trans hlevels⟩

/-- The overflow of one symbol drops the delta of another. -/
theorem slow_client_misses_delta : (run (Feed.step ⟨1, 10⟩) (.new 3 ⟨0, 1, 1⟩ 8 100)
      [.connect 0, .subscribe 0 1 2, .drain 0, .subscribe 0 2 2, .drain 0,
        .record 5 1 (bid 1 100 3), .record 6 2 (bid 2 100 4), .drain 0]).map (fun f =>
        ((f.state.connections 0).map ConnectionState.outbound,
          (fold 1 (f.received 0)).side .buy, f.state.levels 1 .buy)) =
      some (some [], [], [⟨100, 3, 1⟩]) := by
  decide +kernel

/-- **The first levels of a ladder.**  What a client received and what is queued for it fold at any
time to ladders whose first `snapshotDepth` levels are those of the book, as long as it was told the
next level when one of the first levels ended. -/
theorem first_levels_correct {limits : Limits} {maxSymbols bookCapacity : Nat}
    {baseConfig : BookConfig} {midPriceDefault : Int} {events : List FeedEvent} {f : Feed} {c : Nat}
    (hcap : bookCapacity ≤ NONE) (hmax : 0 < limits.maxOutbound)
    (hfits : Along (Feed.step limits) Feed.Fitting
      (.new maxSymbols baseConfig bookCapacity midPriceDefault) events)
    (hsparing : Along (Feed.step limits) (Feed.Sparing limits c)
      (.new maxSymbols baseConfig bookCapacity midPriceDefault) events)
    (htold : Along (Feed.step limits) (Feed.Told limits c)
      (.new maxSymbols baseConfig bookCapacity midPriceDefault) events)
    (hrun : run (Feed.step limits)
      (.new maxSymbols baseConfig bookCapacity midPriceDefault) events = some f)
    {conn : ConnectionState} (hconn : f.state.connections c = some conn) :
    ∀ x < f.state.maxSymbols, f.state.subs.hasDepth c x = true →
      ∀ s, ((fold x (f.received c ++ conn.outbound)).side s).take limits.snapshotDepth =
        (f.state.levels x s).take limits.snapshotDepth := by
  obtain ⟨-, hshown⟩ := run_invariant (I := fun f => f.Sound limits ∧ f.Shown limits c)
    (fun ⟨hf, h⟩ ⟨⟨hfits, hsparing⟩, htold⟩ hstep =>
      ⟨hf.step hfits hstep, h.step hf hmax hfits hsparing htold hstep⟩)
    ⟨Feed.sound_new limits maxSymbols baseConfig midPriceDefault hcap,
      Feed.shown_new limits maxSymbols baseConfig bookCapacity midPriceDefault c⟩
    ((hfits.and hsparing).and htold) hrun
  intro x hx hdepth s
  exact (hshown conn hconn x hx hdepth s).take_eq

/-- The first level goes, and the client was told the next one. -/
def firstConsumed : List FeedEvent :=
  [.connect 0, .subscribe 0 1 2, .record 5 1 (bid 1 100 3), .record 6 1 (bid 2 99 4),
    .record 7 1 (bidCancelled 1)]

theorem first_levels_correct_firstConsumed :
    ∃ f conn, run (Feed.step ⟨8, 1⟩) (.new 3 ⟨0, 1, 1⟩ 8 100) firstConsumed = some f ∧
      f.state.connections 0 = some conn ∧
      ((fold 1 (f.received 0 ++ conn.outbound)).side .buy).take 1 = [⟨99, 4, 1⟩] := by
  obtain ⟨f, hrun, hconn, hsymbols, hdepth, hlevels⟩ :
      ∃ f, run (Feed.step ⟨8, 1⟩) (.new 3 ⟨0, 1, 1⟩ 8 100) firstConsumed = some f ∧
        (f.state.connections 0).isSome = true ∧ 1 < f.state.maxSymbols ∧
        f.state.subs.hasDepth 0 1 = true ∧ (f.state.levels 1 .buy).take 1 = [⟨99, 4, 1⟩] := by
    decide +kernel
  obtain ⟨conn, hconn⟩ := Option.isSome_iff_exists.1 hconn
  have hlevel := first_levels_correct (by decide) (by decide) (by decide +kernel)
    (by decide +kernel) (by decide +kernel) hrun hconn 1 hsymbols hdepth .buy
  exact ⟨f, conn, hrun, hconn, hlevel.trans hlevels⟩

/-- The snapshot ends before the second level, and no delta tells it when the first one goes. -/
theorem first_level_missing : (run (Feed.step ⟨8, 1⟩) (.new 3 ⟨0, 1, 1⟩ 8 100)
      [.record 5 1 (bid 1 100 3), .record 6 1 (bid 2 99 4), .connect 0, .subscribe 0 1 2, .drain 0,
        .record 7 1 (bidCancelled 1), .drain 0]).map (fun f =>
        (((fold 1 (f.received 0)).side .buy).take 1, (f.state.levels 1 .buy).take 1)) =
      some ([], [⟨99, 4, 1⟩]) := by
  decide +kernel

end Rsx.Marketdata
