import Rsx.Book.Proof.Snapshot
import Rsx.Matching.FillTotals
import Rsx.Matching.Recovery

/-!
# A book and its index

What the live engine and a replay both keep: a sound book, and an index that finds the resting
orders.  An order, a cancel and a recentering change the resting orders and the positions in a way
that does not depend on the map or on the handles, which the two do not share.
-/

namespace Rsx.Matching

open Function Book Orderbook PriceTime List CompressionMap

variable {held : Nat → Option Resting} {index : OrderKey → Option Nat} {order : IncomingOrder}
  {fill : Entry × Int} {fills : List (Entry × Int)} {b b' : Orderbook} {q : Nat → List Nat}
  {free : List Nat} {o : Resting} {h : Nat} {key : OrderKey}
  {x : Exchange} {newMid : Int} {o' : Resting}

/-! ## The index -/

/-- The index finds every resting order by its key, and nothing else. -/
def Indexes (held : Nat → Option Resting) (index : OrderKey → Option Nat) : Prop :=
  ∀ key h, index key = some h ↔ ∃ o, held h = some o ∧ restingKey o = key

namespace Indexes

section

variable (hi : Indexes held index)
include hi

section

variable (ho : held h = some o)
include ho

theorem find : index (restingKey o) = some h :=
  (hi _ h).2 ⟨o, ho, rfl⟩

theorem unique {h' : Nat}
    (ho' : held h' = some o') (hkey : restingKey o = restingKey o') : h = h' := by
  have hfind := hi.find ho
  rw [hkey, hi.find ho'] at hfind
  exact (Option.some.inj hfind).symm

theorem remove : Indexes (update held h none) (update index (restingKey o) none) := by
  intro key x
  by_cases hkey : key = restingKey o
  · subst hkey
    refine ⟨fun hnone => absurd hnone (by simp), fun ⟨o', ho', hsame⟩ => ?_⟩
    by_cases hx : x = h
    · subst hx
      exact absurd ho' (by simp)
    · rw [update_of_ne hx] at ho'
      exact absurd (hi.unique ho' ho hsame) hx
  · rw [update_of_ne hkey, hi key x]
    by_cases hx : x = h
    · subst hx
      refine ⟨fun ⟨o', ho', hsame⟩ => ?_, fun ⟨o', ho', _⟩ => absurd ho' (by simp)⟩
      rw [ho] at ho'
      obtain rfl := Option.some.inj ho'
      exact absurd hsame.symm hkey
    · rw [update_of_ne hx]

theorem change (hkey : restingKey o' = restingKey o) :
    Indexes (update held h (some o')) index := by
  intro key x
  rw [hi key x]
  by_cases hx : x = h
  · subst hx
    rw [ho]
    simp [hkey]
  · rw [update_of_ne hx]

end

theorem insert (hnone : held h = none)
    (hfresh : ∀ x o', held x = some o' → restingKey o' ≠ restingKey o) :
    Indexes (update held h (some o)) (update index (restingKey o) (some h)) := by
  intro key x
  by_cases hx : x = h
  · subst hx
    by_cases hkey : key = restingKey o
    · subst hkey
      simp
    · rw [update_of_ne hkey, hi key x, hnone]
      simp [Ne.symm hkey]
  · rw [update_of_ne hx]
    by_cases hkey : key = restingKey o
    · subst hkey
      rw [update_self]
      refine ⟨fun heq => absurd (Option.some.inj heq).symm hx, fun ⟨o', ho', hsame⟩ => ?_⟩
      exact absurd hsame (hfresh x o' ho')
    · rw [update_of_ne hkey, hi key x]

theorem none_of_fresh
    (hfresh : ∀ x o', held x = some o' → restingKey o' ≠ key) : index key = none := by
  cases hfind : index key with
  | none => rfl
  | some x =>
    obtain ⟨o', ho', hsame⟩ := (hi key x).1 hfind
    exact absurd hsame (hfresh x o' ho')

theorem fillEvents (order : IncomingOrder) (hheld : held fill.1.handle = some fill.1.order) :
    Indexes (fillHeld held fill) (updateOrderIndex (fillEvents order fill) index) := by
  unfold fillHeld Orderbook.fillEvents
  dsimp only
  by_cases hfull : fill.1.order.remainingQty = fill.2
  · rw [if_pos hfull, if_pos hfull]
    exact hi.remove hheld
  · rw [if_neg hfull, if_neg hfull]
    exact hi.change hheld rfl

theorem foldFills (order : IncomingOrder) (hd : Drawn held fills) :
    Indexes (fills.foldl fillHeld held)
      (updateOrderIndex (fills.flatMap (Orderbook.fillEvents order)) index) := by
  induction fills generalizing held index with
  | nil => exact hi
  | cons fill fills ih =>
    obtain ⟨hheld, -, -, -, hrest⟩ := hd
    rw [flatMap_cons, updateOrderIndex, foldl_append]
    exact ih (hi.fillEvents order hheld) hrest

end

theorem recorded {handle : Nat} {ending : Ending} {bbo : Option Bbo} (hi : Indexes b.held index)
    (hr : Recorded order b fills handle ending bbo b')
    (hfresh : ∀ x o, b.held x = some o → restingKey o ≠ restingKey order.resting) :
    Indexes b'.held (updateOrderIndex b'.eventBuf index) := by
  have hfills := hi.foldFills order hr.drawn
  have hfresh' := hr.drawn.forall_held (fun _ _ hne => hne) hfresh
  have hbbo : ∀ index, updateOrderIndex (bbo.toList.map Bbo.event) index = index := by
    intro index
    cases bbo <;> rfl
  have hevents : updateOrderIndex b'.eventBuf index = indexEvent
      (updateOrderIndex (fills.flatMap (Orderbook.fillEvents order)) index)
        (endEvent order handle ending) := by
    rw [hr.events, updateOrderIndex, foldl_append]
    exact hbbo _
  rw [hevents, hr.held]
  cases ending with
  | done =>
    have hnone := hfills.none_of_fresh hfresh'
    show Indexes _ (update _ (restingKey order.resting) none)
    rw [← hnone, update_eq_self]
    exact hfills
  | failed => exact hfills
  | inserted => exact hfills.insert hr.fresh hfresh'

end Indexes

/-! ## The exchange under the keys -/

/-- An exchange without the order `key`. -/
def without (x : Exchange) (key : OrderKey) : Exchange where
  orders s := (x.orders s).filter fun o => restingKey o ≠ key
  sorted s := (x.sorted s).filter _

theorem without_unstamped (x : Exchange) (key : OrderKey) :
    (without x key).unstamped = without x.unstamped key := by
  ext1
  funext s
  show ((x.orders s).filter _).map Resting.unstamped = ((x.orders s).map Resting.unstamped).filter _
  rw [filter_map]
  rfl

def Keyed (x : Exchange) : Prop :=
  ((x.orders .buy ++ x.orders .sell).map restingKey).Nodup

theorem Indexes.keyed (hi : Indexes b.held index) (hq : Queued b q free) : Keyed b.exchange := by
  have hnodup : (b.handles q).Nodup :=
    (nodup_append.1 (hq.handles_cover.nodup_iff.2 nodup_range)).1
  unfold Keyed
  rw [(b.orders_perm.map restingKey).nodup_iff, hq.resting_eq, entries_eq_map, map_map, map_map]
  refine hnodup.map_on fun h hh h' hh' hkey => ?_
  exact hi.unique (held_eq (hq.mem_handles.1 hh)) (held_eq (hq.mem_handles.1 hh')) hkey

theorem Keyed.sides (hkeyed : Keyed x) (s : Side) :
    ((x.orders s ++ x.orders s.opposite).map restingKey).Nodup := by
  cases s with
  | buy => exact hkeyed
  | sell => exact ((perm_append_comm.map restingKey).nodup_iff).1 hkeyed

theorem withdrawn_eq_without {x' : Exchange} (hkeyed : Keyed x) (hw : x.Withdrawn o x') :
    x' = without x (restingKey o) := by
  obtain ⟨o₁, o₂, hx, hx'⟩ := hw.side
  have hnodup := hkeyed.sides o.side
  have hmiddle : (x.orders o.side ++ x.orders o.side.opposite).Perm
      (o :: (o₁ ++ o₂ ++ x.orders o.side.opposite)) := by
    rw [hx, append_assoc, append_assoc]
    exact perm_middle
  rw [(hmiddle.map restingKey).nodup_iff, map_cons, nodup_cons] at hnodup
  have hkeep : ∀ l : List Resting, (∀ a ∈ l, a ∈ o₁ ++ o₂ ++ x.orders o.side.opposite) →
      (l.filter fun a => restingKey a ≠ restingKey o) = l := fun l hl =>
    filter_eq_self.2 fun a ha => decide_eq_true fun hkey =>
      hnodup.1 (hkey ▸ mem_map_of_mem (hl a ha))
  ext1
  funext s
  show x'.orders s = (x.orders s).filter _
  by_cases hs : s = o.side
  · subst hs
    rw [hx', hx, filter_append, filter_cons_of_neg (by simp),
      hkeep o₁ fun a ha => by simp [ha], hkeep o₂ fun a ha => by simp [ha]]
  · rw [hw.other s hs, hkeep]
    intro a ha
    have hopp : s = o.side.opposite := by
      cases hside : o.side <;> cases s <;> simp_all [Side.opposite]
    rw [hopp] at ha
    exact mem_append_right _ ha

/-! ## The invariant -/

/-- What a live book and a replayed one keep, with the index that goes with it. -/
structure Trading (b : Orderbook) (index : OrderKey → Option Nat) : Prop extends Steady b where
  aligned : ∀ h o, b.held h = some o → b.config.tickSize ∣ o.price
  wide : b.compression.Wide
  tallied : Tallied b.orders.capacity b.users b.held
  covered : b.users.Covered
  normal : b.state = .normal
  indexes : Indexes b.held index

theorem trading_new {config : BookConfig} {capacity : Nat} {midPrice : Int}
    (hsized : WellSized midPrice config.tickSize)
    (hwide : (new midPrice config.tickSize).Wide) (hcap : capacity ≤ NONE) :
    Trading (new config capacity midPrice) fun _ => none where
  toSteady := (live_new hsized hcap).toSteady
  aligned := nofun
  wide := hwide
  tallied := (kept_new hcap).tallied
  covered := UserRegistry.covered_empty
  normal := rfl
  indexes := fun _ _ => ⟨nofun, fun ⟨_, ho, _⟩ => nomatch ho⟩

/-- What an order that goes through does, in terms that a replay shares. -/
structure Executed (b : Orderbook) (order : IncomingOrder) (b' : Orderbook) : Prop where
  frame : Frame b b'
  exchange : b'.exchange = (b.submission order).book
  net : (∀ u, ((b.users.netOf u).natAbs : Int) + order.qty ≤ i64Max) → ∀ u, b'.users.netOf u =
    b.users.netOf u + netChange order ((b.submission order).fills.map FillReport.of) u

namespace Trading

variable {clamped : IncomingOrder}

section

variable (ht : Trading b index)
include ht

theorem regular (p : Int) : b.compression.Regular p := by
  obtain ⟨_, _, hs⟩ := ht.sound
  exact hs.exact.regular_of_wide ht.wide p

theorem mem_resting : o ∈ b.resting ↔ ∃ h, b.held h = some o := by
  obtain ⟨_, _, hs⟩ := ht.sound
  rw [hs.queued.mem_resting]
  constructor
  · rintro ⟨t, _, he, rfl⟩
    obtain ⟨h, hh, rfl⟩ := mem_map.1 he
    exact ⟨h, held_eq ((hs.queued.active h).2 ⟨t, hh⟩)⟩
  · rintro ⟨h, hh⟩
    unfold held at hh
    split_ifs at hh with hactive
    obtain ⟨t, ht⟩ := (hs.queued.active h).1 hactive
    exact ⟨t, b.entry h, mem_map_of_mem ht, Option.some.inj hh⟩

theorem setEvents (events : List Event) : Trading { b with eventBuf := events } index := by
  obtain ⟨q, free, hs⟩ := ht.sound
  exact ⟨⟨⟨q, free, hs.setEvents events⟩, ht.fits⟩, ht.aligned, ht.wide, ht.tallied, ht.covered,
    ht.normal, ht.indexes⟩

theorem maintainUsers (nowNs : Nat) (replayMode : Bool) :
    Trading (b.maintainUsers nowNs replayMode) index := by
  obtain ⟨q, free, hs⟩ := ht.sound
  obtain ⟨hc, hstate⟩ := ht.tallied.consistent.maintainOne nowNs replayMode
  have hs' : Sound (b.maintainUsers nowNs replayMode) q free :=
    ⟨⟨hs.queued.congr rfl rfl rfl rfl, hs.exact, hs.asc, hs.placed, hs.tracks⟩, hs.tick,
      hs.uncrossed⟩
  have ht' : Tallied b.orders.capacity (b.maintainUsers nowNs replayMode).users b.held :=
    ⟨hc, ht.tallied.ranged.congr fun u => (hstate u).1, ht.tallied.bound,
      fun u => (hstate u).2.trans (ht.tallied.count u)⟩
  exact ⟨⟨⟨q, free, hs'⟩, ht.fits⟩, ht.aligned, ht.wide, ht',
    ht.covered.maintainOne ht.tallied.consistent nowNs replayMode, ht.normal, ht.indexes⟩

theorem recorded (hfresh : b.FreshFits order) (hrun : b.processNewOrder order = some b') :
    (∃ q' free', Queued b' q' free') ∧ ∃ effective fills handle ending bbo,
      Recorded effective b fills handle ending bbo b' ∧
      effective = order.setRemaining effective.remainingQty ∧
      (fills = [] ∧ (∃ reason, ending = .failed reason) ∨
        b.config.tickSize ∣ order.price ∧ 0 < effective.remainingQty ∧
          effective.remainingQty ≤ order.qty) := by
  obtain ⟨q, _, hs⟩ := ht.sound
  have hsum : total (b.entries q) + order.remainingQty ≤ i64Max := by
    rw [← hs.queued.totalQty_exchange, hfresh.1]
    exact hfresh.2
  obtain ⟨⟨q', free', hq', -⟩, effective, fills, handle, ending, bbo, hr, hcase⟩ :=
    hs.queued.processNewOrder hsum hrun
  refine ⟨⟨q', free', hq'⟩, effective, fills, handle, ending, bbo, hr, ?_⟩
  rcases hcase with ⟨halign, hclamp⟩ | ⟨rfl, hfills, hfailed⟩
  · have ha : Accepted b order effective := ⟨hfresh.1, halign, hclamp⟩
    exact ⟨ha.eq_setRemaining.1, .inr ⟨ha.tick_dvd, ha.eq_setRemaining.2⟩⟩
  · exact ⟨rfl, .inl ⟨hfills, hfailed⟩⟩

theorem netOf_processNewOrder (hfresh : b.FreshFits order)
    (hrun : b.processNewOrder order = some b')
    (hroom : ∀ u, ((b.users.netOf u).natAbs : Int) + order.qty ≤ i64Max) (u : Nat) :
    b'.users.netOf u = b.users.netOf u + netChange order (b'.eventBuf.filterMap Event.fill?) u := by
  obtain ⟨-, _, _, _, _, _, hr, heq, hcase⟩ := ht.recorded hfresh hrun
  rcases hcase with ⟨rfl, _, rfl⟩ | ⟨-, hpos, hle⟩
  · rw [hr.users, hr.filterMap_fill]
    exact (add_zero _).symm
  · have hnet := hr.netOf ht.tallied hpos.le (fun v => by
      have := hroom v
      omega) u
    rw [hnet, heq]
    exact congrArg _ (netChange_congr rfl rfl _ u)

theorem processNewOrder (hfresh : b.FreshFits order)
    (hkey : ∀ h o, b.held h = some o → restingKey o ≠ restingKey order.resting)
    (hrun : b.processNewOrder order = some b') :
    Trading b' (updateOrderIndex b'.eventBuf index) ∧ Executed b order b' := by
  obtain ⟨hsteady, hframe, -⟩ := ht.toSteady.processNewOrder hfresh (ht.regular order.price) hrun
  obtain ⟨_, _, hs⟩ := ht.sound
  obtain ⟨⟨_, _, hq'⟩, effective, _, handle, ending, _, hr, heq, hcase⟩ :=
    ht.recorded hfresh hrun
  have hprice : effective.price = order.price := by rw [heq]; rfl
  have hresting : restingKey effective.resting = restingKey order.resting := by rw [heq]; rfl
  have haligned : ∀ h o, b'.held h = some o → b.config.tickSize ∣ o.price := by
    have hfills := hr.drawn.forall_held (fun _ _ hdvd => hdvd) ht.aligned
    rw [hr.held]
    rcases hcase with ⟨-, _, rfl⟩ | ⟨hdvd, -⟩
    · exact hfills
    · cases ending with
      | done | failed => exact hfills
      | inserted =>
        intro h o ho
        by_cases hh : h = handle
        · subst hh
          rw [endHeld, update_self] at ho
          rw [← Option.some.inj ho]
          show b.config.tickSize ∣ effective.price
          rwa [hprice]
        · rw [endHeld, update_of_ne hh] at ho
          exact hfills h o ho
  have hindexes := ht.indexes.recorded hr (hresting.symm ▸ hkey)
  obtain ⟨hok, hfull⟩ := hs.processNewOrder_submission ht.fits hfresh (ht.regular order.price)
  have hroom : (b.submission order).book.size ≤ b.orders.capacity := by
    by_contra hlt
    rw [hfull (not_le.1 hlt)] at hrun
    exact absurd hrun (by simp)
  obtain ⟨b'', hrun', -, -, hshows⟩ := hok hroom
  obtain rfl : b'' = b' := Option.some.inj (hrun'.symm.trans hrun)
  refine ⟨⟨hsteady, hframe.config.symm ▸ haligned, hframe.compression.symm ▸ ht.wide,
    ht.tallied.recorded hq' hr, hr.covered ht.covered, hframe.state.trans ht.normal, hindexes⟩,
    hframe, hshows.book, fun hroomy u => ?_⟩
  rw [← netChange_perm hshows.fills]
  exact ht.netOf_processNewOrder hfresh hrun hroomy u

theorem mem_orders {s : Side} (ho : o ∈ b.exchange.orders s) : ∃ h, b.held h = some o :=
  ht.mem_resting.1 (mem_filter.1 (mem_arrange.1 ho)).1

theorem cancelOrder (hindex : index key = some h) :
    Trading (b.cancelOrder h).2 (update index key none) ∧ Frame b (b.cancelOrder h).2 ∧
      (b.cancelOrder h).2.exchange = without b.exchange key ∧
      ∀ u, (b.cancelOrder h).2.users.netOf u = b.users.netOf u := by
  obtain ⟨o, hheld, rfl⟩ := (ht.indexes key h).1 hindex
  obtain ⟨q, free, hs⟩ := ht.sound
  have hactive : (b.slot h).active = true := by
    unfold held at hheld
    split_ifs at hheld with hactive
    exact hactive
  obtain rfl : (b.slot h).resting = o := Option.some.inj ((held_eq hactive).symm.trans hheld)
  have hk : Kept b q free := ⟨hs.queued, fun u e he => (hs.placed u e he).index, ht.tallied⟩
  obtain ⟨⟨_, _, hk'⟩, hframe, hheld', husers⟩ := hk.cancelOrder hactive
  -- The checked cancel with the order's own key is the unchecked one.
  have hmatches : b.orderMatches h (b.slot h).userId (b.slot h).orderIdHi (b.slot h).orderIdLo =
      true := decide_eq_true ⟨hs.queued.held_lt (by rw [hheld]; simp), hactive, rfl, rfl, rfl⟩
  have hcancel := hs.cancelOrderChecked h (b.slot h).userId (b.slot h).orderIdHi
    (b.slot h).orderIdLo
  rw [if_pos hmatches] at hcancel
  obtain ⟨b', q₁, free₁, hrun, hs', hwithdrawn, hpos, -, -, -⟩ := hcancel
  rw [cancelOrderChecked, if_pos hmatches] at hrun
  have hb' : b' = (b.cancelOrder h).2 := by rw [hrun]
  subst hb'
  have htotal := hwithdrawn.totalQty
  have hqty : 0 < (b.slot h).resting.remainingQty := hpos
  have hfits := ht.fits
  refine ⟨⟨⟨⟨q₁, free₁, hs'⟩, by omega⟩, ?_, hframe.compression.symm ▸ ht.wide, hk'.tallied,
    husers ▸ ht.covered.removeOrder _, hframe.state.trans ht.normal, ?_⟩, hframe,
    withdrawn_eq_without (ht.indexes.keyed hs.queued) hwithdrawn, fun u => ?_⟩
  · rw [hframe.config, hheld']
    intro x o ho
    by_cases hx : x = h
    · subst hx
      exact absurd ho (by simp)
    · rw [update_of_ne hx] at ho
      exact ht.aligned x o ho
  · rw [hheld']
    exact ht.indexes.remove hheld
  · rw [husers]
    exact ((ht.tallied.consistent.removeOrder _).2 u).1

end

theorem recenterNow_normal (hrun : b.recenterNow newMid = some b') :
    b'.state = .normal := by
  obtain ⟨b₁, -, hrun⟩ := Option.bind_eq_some_iff.1 hrun
  unfold completeMigrationEager at hrun
  by_cases hstate : b₁.state ≠ .migrating
  · rw [if_pos hstate] at hrun
    obtain rfl := Option.some.inj hrun
    cases h : b₁.state with
    | normal => rfl
    | migrating => exact absurd h hstate
  · rw [if_neg hstate] at hrun
    obtain ⟨_, -, hrun⟩ := Option.bind_eq_some_iff.1 hrun
    obtain rfl := Option.some.inj hrun
    rfl

theorem recenterNow (ht : Trading b index)
    (hsized : WellSized b'.compression.midPrice b'.config.tickSize)
    (hwide : b'.compression.Wide) (hrun : b.recenterNow newMid = some b') :
    Trading b' index ∧ b'.exchange = b.exchange ∧ b'.users = b.users ∧ b'.config = b.config ∧
      b'.orders.capacity = b.orders.capacity ∧
      b'.compression = new newMid b.config.tickSize := by
  obtain ⟨q, free, hs⟩ := ht.sound
  have hk : Kept b q free := ⟨hs.queued, fun u e he => (hs.placed u e he).index, ht.tallied⟩
  obtain ⟨_, hk', hheld, husers, -, hconfig, hcap⟩ := hk.recenterNow ht.fits hrun
  have hcomp : b'.compression = new newMid b.config.tickSize := by
    rcases hs.queued.recenterNow (hs.queued.totalQty_exchange ▸ ht.fits) newMid with
      ⟨b'', _, hrun', hr⟩ | ⟨hnone, -⟩
    · obtain rfl := Option.some.inj (hrun'.symm.trans hrun)
      exact hr.compression
    · exact absurd (hnone.symm.trans hrun) (by simp)
  rw [hconfig, hcomp] at hsized
  rw [hcomp] at hwide
  obtain ⟨_, q'', hrun', hs', hex, -⟩ := hs.recenterNow ht.fits hsized
    (fun o _ => hsized.exact.regular_of_wide hwide o.price)
    (fun o ho => by
      obtain ⟨h, hh⟩ := ht.mem_resting.1 ho
      exact ht.aligned h o hh)
  obtain rfl := Option.some.inj (hrun'.symm.trans hrun)
  refine ⟨⟨⟨⟨q'', free, hs'⟩, hex ▸ ht.fits⟩, ?_, hcomp ▸ hwide, hk'.tallied, husers ▸ ht.covered,
    recenterNow_normal hrun, hheld ▸ ht.indexes⟩, hex, husers, hconfig, hcap, hcomp⟩
  rw [hconfig, hheld]
  exact ht.aligned

end Trading

/-! ## Checkpoints -/

theorem indexSlot_eq (b : Orderbook) (index : OrderKey → Option Nat) (h : Nat) :
    indexSlot b index h = (b.held h).elim index fun o =>
      update index (restingKey o) (some h) := by
  unfold indexSlot held
  show (if (b.slot h).active = true then _ else _) = _
  split_ifs <;> rfl

theorem Indexes.rebuild (hi : Indexes b.held index)
    (hbump : ∀ h, b.held h ≠ none → h < b.orders.bumpNext) :
    Indexes b.held (rebuildOrderIndexFromBook b) := by
  have hfold : ∀ n key h, (List.range n).foldl (indexSlot b) (fun _ => none) key = some h ↔
      h < n ∧ ∃ o, b.held h = some o ∧ restingKey o = key := by
    intro n
    induction n with
    | zero => simp
    | succ n ih =>
      intro key h
      rw [range_succ, foldl_append, foldl_cons, foldl_nil, indexSlot_eq]
      cases hn : b.held n with
      | none =>
        refine (ih key h).trans (and_congr_left fun ⟨o, ho, _⟩ => ?_)
        have hne : h ≠ n := fun heq => absurd (heq ▸ ho) (by simp [hn])
        omega
      | some o =>
        rw [Option.elim_some]
        by_cases hkey : key = restingKey o
        · subst hkey
          rw [update_self]
          constructor
          · intro heq
            cases heq
            exact ⟨Nat.lt_succ_self n, o, hn, rfl⟩
          · rintro ⟨-, o', ho', hsame⟩
            exact congrArg some (hi.unique hn ho' hsame.symm)
        · rw [update_of_ne hkey, ih key h]
          refine and_congr_left fun ⟨o', ho', hsame⟩ => ?_
          have hne : h ≠ n := fun heq => by
            rw [heq, hn] at ho'
            exact hkey (hsame.symm.trans (congrArg restingKey (Option.some.inj ho').symm))
          omega
  intro key h
  refine (hfold _ key h).trans (and_iff_right_of_imp fun ⟨o, ho, _⟩ => hbump h ?_)
  rw [ho]
  simp

theorem held_lt_bump (hq : Queued b q free) (hh : b.held h ≠ none) : h < b.orders.bumpNext := by
  have hactive : (b.slot h).active = true := by
    by_contra hactive
    exact hh (if_neg hactive)
  exact mem_range.1 (hq.handles_cover.mem_iff.1
    (mem_append_left _ (hq.mem_handles.2 hactive)))

/-- **A checkpoint.**  A book can be captured at any time, and the book restored from it trades on
with the same orders and positions. -/
theorem Trading.restore (ht : Trading b index) (hlot : 0 < b.config.lotSize)
    (hsized : WellSized b.compression.midPrice b.config.tickSize)
    (hwide : (new b.compression.midPrice b.config.tickSize).Wide) :
    ∃ snapshot c, b.capture = .ok snapshot ∧ Book.restore snapshot b.orders.capacity = .ok c ∧
      Trading c (rebuildOrderIndexFromBook c) ∧ Alike b c := by
  obtain ⟨_, free, hs⟩ := ht.sound
  obtain ⟨c, q', hrun, hs', hr⟩ := hs.restore ht.fits ht.tallied.consistent ht.covered hlot hsized
    fun s o ho => by
      obtain ⟨h, hh⟩ := ht.mem_orders ho
      exact ⟨hsized.exact.regular_of_wide hwide o.price, ht.aligned h o hh⟩
  have hnet : ∀ u, c.users.netOf u = b.users.netOf u := fun u =>
    congrArg UserState.netQty (hr.stateOf u)
  have horders : ∀ u, c.users.ordersOf u = b.users.ordersOf u := fun u =>
    congrArg UserState.orderCount (hr.stateOf u)
  have htallied : Tallied c.orders.capacity c.users c.held := by
    rw [hr.capacity, hr.held]
    exact ⟨hr.consistent, ht.tallied.ranged.congr hnet, ht.tallied.bound,
      fun u => (horders u).trans (ht.tallied.count u)⟩
  have hindexes : Indexes c.held (rebuildOrderIndexFromBook c) := by
    exact Indexes.rebuild (hr.held.symm ▸ ht.indexes) fun h hh => held_lt_bump hs'.queued hh
  refine ⟨_, c, hs.queued.capture ht.normal, hrun,
    ⟨⟨⟨q', free, hs'⟩, hr.exchange.symm ▸ ht.fits⟩, ?_, hr.compression.symm ▸ hwide, htallied,
      hr.covered, hr.state, hindexes⟩,
    congrArg Exchange.unstamped hr.exchange.symm, fun u => (hnet u).symm, hr.config.symm,
    hr.capacity.symm⟩
  rw [hr.config, hr.held]
  exact ht.aligned

end Rsx.Matching
