import Rsx.Matching.Trading

/-!
# Replaying a live run

The replay of the records an action wrote takes a book that is alike to the live book before the
action to one that is alike to the live book after it.  The two never share a map, since a replay
does not recenter, nor the handles, the registry slots or the times of the orders.
-/

namespace Rsx.Matching

open Function Book Orderbook PriceTime List Engine FillReport CompressionMap

variable {e e' : Engine} {r : Replay} {b b' : Orderbook} {index : OrderKey → Option Nat}
  {order : IncomingOrder} {key : OrderKey} {msg : OrderMessage} {acceptNs publishNs : Nat}
  {records : List Record} {fills : List (Entry × Int)} {handle : Nat} {ending : Ending}
  {bbo : Option Bbo} {a : Action} {actions : List Action}

/-! ## Records without an effect -/

def Record.Quiet : Record → Prop
  | .orderAccepted _ => False
  | .orderCancelled .. => False
  | _ => True

theorem run_apply_quiet (hquiet : ∀ record ∈ records, record.Quiet)
    (r : Replay) : run Replay.apply r records = some r := by
  induction records with
  | nil => rfl
  | cons record records ih =>
    have hone : r.apply record = some r := by
      have := hquiet record mem_cons_self
      cases record <;> first | rfl | exact absurd this id
    rw [run, hone]
    exact ih fun record' hmem => hquiet record' (mem_cons_of_mem _ hmem)

theorem Recorded.forall_events (hr : Recorded order b fills handle ending bbo b') {P : Event → Prop}
    (hfill : ∀ fill, P (fillEvent order fill)) (hfilled : ∀ entry, P (filledEvent entry))
    (hend : P (endEvent order handle ending)) (hbbo : ∀ bbo : Bbo, P bbo.event) :
    ∀ event ∈ b'.eventBuf, P event := by
  intro event hevent
  rw [hr.events, mem_append, mem_flatMap, mem_cons] at hevent
  rcases hevent with ⟨fill, -, hmem⟩ | rfl | hmem
  · unfold fillEvents at hmem
    split_ifs at hmem <;> simp only [mem_cons, not_mem_nil, or_false] at hmem
    · rcases hmem with rfl | rfl
      · exact hfill fill
      · exact hfilled fill.1
    · exact hmem ▸ hfill fill
  · exact hend
  · obtain ⟨bbo, -, rfl⟩ := mem_map.1 hmem
    exact hbbo bbo

theorem Recorded.quiet (hr : Recorded order b fills handle ending bbo b') (tsNs : Nat) :
    ∀ record ∈ b'.eventBuf.map (eventRecord b' tsNs), record.Quiet :=
  forall_mem_map.2 (Recorded.forall_events hr (fun _ => trivial) (fun _ => trivial)
    (by cases ending <;> exact trivial) fun _ => trivial)

theorem Trading.quiet (ht : Trading b index) (hfresh : b.FreshFits order)
    (hrun : b.processNewOrder order = some b') (tsNs : Nat) :
    ∀ record ∈ b'.eventBuf.map (eventRecord b' tsNs), record.Quiet := by
  obtain ⟨-, _, _, _, _, _, hr, -⟩ := ht.recorded hfresh hrun
  exact Recorded.quiet hr tsNs

/-! ## Positions in the log -/

def Record.change (u : Nat) : Record → Int
  | .fill rec =>
    (if u = rec.takerUserId then UserRegistry.signedQty rec.takerSide rec.qty else 0) -
      if u = rec.makerUserId then UserRegistry.signedQty rec.takerSide rec.qty else 0
  | _ => 0

def loggedPosition (records : List Record) (u : Nat) : Int :=
  (records.map (Record.change u)).sum

theorem loggedPosition_append (records records' : List Record) (u : Nat) :
    loggedPosition (records ++ records') u =
      loggedPosition records u + loggedPosition records' u := by
  unfold loggedPosition
  rw [map_append, sum_append]

theorem loggedPosition_events {order : IncomingOrder}
    (hr : Recorded order b fills handle ending bbo b')
    (tsNs u : Nat) : loggedPosition (b'.eventBuf.map (eventRecord b' tsNs)) u =
      netChange order (b'.eventBuf.filterMap Event.fill?) u := by
  have hlist : ∀ events : List Event, (∀ event ∈ events, (eventRecord b' tsNs event).change u =
      event.fill?.elim 0 (change order u)) →
      loggedPosition (events.map (eventRecord b' tsNs)) u =
        netChange order (events.filterMap Event.fill?) u := by
    intro events hevents
    induction events with
    | nil => rfl
    | cons event events ih =>
      have hone := hevents event mem_cons_self
      have hrest := ih fun event' hmem => hevents event' (mem_cons_of_mem _ hmem)
      unfold loggedPosition netChange at hrest ⊢
      rw [map_cons, map_cons, sum_cons, hone, hrest]
      cases hfill : event.fill? with
      | none => rw [filterMap_cons_none hfill, Option.elim_none, zero_add]
      | some =>
        rw [filterMap_cons_some hfill, Option.elim_some, map_cons, sum_cons]
  refine hlist _ (Recorded.forall_events hr (fun _ => rfl) (fun _ => rfl) ?_ fun _ => rfl)
  cases ending <;> rfl

theorem Trading.netOf_logged (ht : Trading b index) (hfresh : b.FreshFits order)
    (hrun : b.processNewOrder order = some b')
    (hroom : ∀ u, ((b.users.netOf u).natAbs : Int) + order.qty ≤ i64Max) (tsNs u : Nat) :
    b'.users.netOf u =
      b.users.netOf u + loggedPosition (b'.eventBuf.map (eventRecord b' tsNs)) u := by
  obtain ⟨-, _, _, _, _, _, hr, heq, -⟩ := ht.recorded hfresh hrun
  rw [ht.netOf_processNewOrder hfresh hrun hroom, loggedPosition_events hr, heq]
  exact congrArg _ (netChange_congr rfl rfl _ u)

/-! ## Live and replayed books -/

theorem Trading.mem_keys (ht : Trading b index) : (∃ h o, b.held h = some o ∧ restingKey o = key) ↔
      ∃ s, ∃ o ∈ b.exchange.unstamped.orders s, restingKey o = key := by
  constructor
  · rintro ⟨h, o, ho, rfl⟩
    have hmem : o ∈ b.exchange.orders o.side :=
      mem_arrange.2 (mem_filter.2 ⟨ht.mem_resting.2 ⟨h, ho⟩, decide_eq_true rfl⟩)
    exact ⟨o.side, o.unstamped, mem_map_of_mem hmem, rfl⟩
  · rintro ⟨_, _, ho, rfl⟩
    obtain ⟨o, hmem, rfl⟩ := mem_map.1 ho
    obtain ⟨h, hh⟩ := ht.mem_orders hmem
    exact ⟨h, o, hh, rfl⟩

theorem Trading.isSome_index (ht : Trading b index) :
    (index key).isSome ↔ ∃ s, ∃ o ∈ b.exchange.unstamped.orders s, restingKey o = key := by
  rw [← ht.mem_keys, Option.isSome_iff_exists]
  exact exists_congr fun h => ht.indexes key h

structure Mirrors (e : Engine) (r : Replay) : Prop where
  live : Trading e.book e.orderIndex
  replay : Trading r.book r.orderIndex
  alike : Alike e.book r.book

theorem Mirrors.isSome_index (hm : Mirrors e r) :
    (r.orderIndex key).isSome ↔ (e.orderIndex key).isSome := by
  rw [hm.replay.isSome_index, hm.live.isSome_index, hm.alike.exchange]

theorem Alike.executed {c c' : Orderbook} (ha : Alike b c) (tsNs : Nat)
    (hsub : (b.submission order).unstamped = (c.submission (order.stamped tsNs)).unstamped)
    (hroom : ∀ u, ((b.users.netOf u).natAbs : Int) + order.qty ≤ i64Max)
    (hb : Executed b order b') (hc : Executed c (order.stamped tsNs) c') :
    Alike b' c' := by
  have hfills : (b.submission order).fills.map of =
      (c.submission (order.stamped tsNs)).fills.map of := by
    have hmap : ∀ sub : Submission, sub.unstamped.fills.map of = sub.fills.map of := fun sub => by
      show (sub.fills.map _).map _ = _
      rw [map_map]
      rfl
    rw [← hmap, hsub, hmap]
  refine ⟨?_, fun u => ?_, ?_, ?_⟩
  · rw [hb.exchange, hc.exchange]
    exact congrArg Submission.book hsub
  · rw [hb.net hroom, hc.net fun v => ha.net v ▸ hroom v, ha.net, hfills]
    exact congrArg _ (netChange_congr rfl rfl _ u).symm
  · rw [hb.frame.config, hc.frame.config, ha.config]
  · rw [hb.frame.capacity, hc.frame.capacity, ha.capacity]

/-! ## One action -/

theorem Mirrors.accept (hm : Mirrors e r)
    (hkey : ∀ h o, e.book.held h = some o → restingKey o ≠ msg.key)
    (hsize : e.book.exchange.size ≤ maxMakersPerOrder)
    (hfits : e.book.exchange.totalQty + msg.qty ≤ i64Max)
    (hroom : ∀ u, ((e.book.users.netOf u).natAbs : Int) + msg.qty ≤ i64Max)
    (hrun : e.book.processNewOrder (toIncoming msg) = some b) (acceptNs : Nat) :
    ∃ r', r.apply (.orderAccepted (msg.accepted acceptNs)) = some r' ∧
      Trading r'.book r'.orderIndex ∧ Alike b r'.book := by
  have hfresh₀ : e.book.FreshFits (toIncoming msg) := ⟨rfl, hfits⟩
  obtain ⟨-, hexec⟩ := hm.live.processNewOrder hfresh₀ hkey hrun
  obtain ⟨_, _, hs⟩ := hm.live.sound
  obtain ⟨_, _, hs'⟩ := hm.replay.sound
  have hsub : (e.book.submission (toIncoming msg)).unstamped =
      (r.book.submission ((toIncoming msg).stamped acceptNs)).unstamped :=
    hm.alike.submission hs.toStanding hs'.toStanding hsize acceptNs
  have hfresh : r.book.FreshFits ((toIncoming msg).stamped acceptNs) := by
    refine ⟨rfl, ?_⟩
    rw [← Exchange.totalQty_unstamped, ← hm.alike.exchange, Exchange.totalQty_unstamped]
    exact hfits
  have hkey' : ∀ h o, r.book.held h = some o →
      restingKey o ≠ restingKey ((toIncoming msg).stamped acceptNs).resting := by
    intro h o ho hsame
    obtain ⟨h', o', ho', hsame'⟩ := hm.live.mem_keys.2
      (hm.alike.exchange ▸ hm.replay.mem_keys.1 ⟨h, o, ho, hsame⟩)
    exact hkey h' o' ho' hsame'
  -- The replayed order finds a slot since the live one did.
  obtain ⟨-, hfull⟩ := hs.processNewOrder_submission hm.live.fits hfresh₀
    (hm.live.regular (toIncoming msg).price)
  obtain ⟨hok, -⟩ := hs'.processNewOrder_submission hm.replay.fits hfresh
    (hm.replay.regular (toIncoming msg).price)
  have hsizes : (r.book.submission ((toIncoming msg).stamped acceptNs)).book.size ≤
      r.book.orders.capacity := by
    have heq := congrArg (fun sub : Submission => sub.book.size) hsub
    simp only [Submission.unstamped, Exchange.size_unstamped] at heq
    rw [← heq, ← hm.alike.capacity]
    by_contra hlt
    rw [hfull (not_le.1 hlt)] at hrun
    exact absurd hrun (by simp)
  obtain ⟨c, hrun', -⟩ := hok hsizes
  obtain ⟨hreplay, hexec'⟩ := hm.replay.processNewOrder hfresh hkey' hrun'
  refine ⟨⟨c, updateOrderIndex c.eventBuf r.orderIndex, r.lastSeq⟩, ?_, hreplay,
    Alike.executed hm.alike acceptNs hsub hroom hexec hexec'⟩
  show (r.book.processNewOrder ((toIncoming msg).stamped acceptNs)).bind _ = _
  rw [hrun']
  rfl

/-- The map is the one around its mid price for the tick size in force. -/
def Current (b : Orderbook) : Prop :=
  b.compression = new b.compression.midPrice b.config.tickSize

structure Lasts (b b' : Orderbook) : Prop where
  config : b'.config = b.config
  capacity : b'.orders.capacity = b.orders.capacity
  current : Current b → Current b'

theorem Lasts.refl (b : Orderbook) : Lasts b b :=
  ⟨rfl, rfl, id⟩

theorem Lasts.trans {b₁ b₂ b₃ : Orderbook} (h : Lasts b₁ b₂) (h' : Lasts b₂ b₃) : Lasts b₁ b₃ :=
  ⟨h'.config.trans h.config, h'.capacity.trans h.capacity, h'.current ∘ h.current⟩

theorem Lasts.of_frame (hframe : Frame b b') : Lasts b b' := by
  refine ⟨hframe.config, hframe.capacity, fun hc => ?_⟩
  unfold Current
  rw [hframe.compression, hframe.config]
  exact hc

theorem Trading.le_of_fits (ht : Trading b index) {qty : Int}
    (hfits : b.exchange.totalQty + qty ≤ i64Max) : qty ≤ i64Max := by
  obtain ⟨_, _, hs⟩ := ht.sound
  have hnonneg := hs.queued.heldQty_eq ▸
    heldQty_nonneg hs.queued.held_pos b.orders.capacity fun _ => true
  omega

theorem Trading.maybeRecenter (ht : Trading b index)
    (hsized : WellSized b'.compression.midPrice b'.config.tickSize)
    (hwide : b'.compression.Wide) (hrun : maybeRecenter b = some b') :
    Trading b' index ∧ b'.exchange = b.exchange ∧ b'.users = b.users ∧ Lasts b b' := by
  unfold Matching.maybeRecenter at hrun
  by_cases hone : b.bestTick .buy = NONE ∨ b.bestTick .sell = NONE
  · rw [if_pos hone] at hrun
    cases hrun
    exact ⟨ht, rfl, rfl, .refl b⟩
  dsimp only at hrun
  split_ifs at hrun
  · obtain ⟨ht', hex, husers, hconfig, hcap, hcomp⟩ := ht.recenterNow hsized hwide hrun
    refine ⟨ht', hex, husers, hconfig, hcap, fun _ => ?_⟩
    unfold Current
    rw [hcomp, hconfig]
    rfl
  · cases hrun
    exact ⟨ht, rfl, rfl, .refl b⟩

theorem Mirrors.cancel (hm : Mirrors e r) {found : Nat} {request : CancelRequest}
    (hindex : e.orderIndex request.key = some found) (events : List Event) (tsNs : Nat)
    (remainingQty : Int) (reduceOnly : Bool) (tif : TimeInForce) :
    ∃ r', r.apply (.orderCancelled tsNs request.userId request.orderIdHi request.orderIdLo
        remainingQty reduceOnly tif) = some r' ∧
      Trading r'.book r'.orderIndex ∧
      Alike { ((cleared e.book).cancelOrder found).2 with eventBuf := events } r'.book := by
  obtain ⟨-, hframe, hex, hnet⟩ := (hm.live.setEvents []).cancelOrder hindex
  have hsome : (r.orderIndex request.key).isSome := hm.isSome_index.2 (by rw [hindex]; rfl)
  obtain ⟨handle, hhandle⟩ := Option.isSome_iff_exists.1 hsome
  obtain ⟨hreplay, hframe', hex', hnet'⟩ := hm.replay.cancelOrder hhandle
  refine ⟨⟨(r.book.cancelOrder handle).2, update r.orderIndex request.key none,
    r.lastSeq⟩, ?_, hreplay, ?_, fun u => ?_, ?_, ?_⟩
  · have hkey : r.orderIndex (request.userId, request.orderIdHi, request.orderIdLo) =
        some handle := hhandle
    unfold Replay.apply
    simp only [hkey]
    rfl
  · have hclear : (cleared e.book).exchange.unstamped = r.book.exchange.unstamped :=
      hm.alike.exchange
    rw [hex', without_unstamped, ← hclear, ← without_unstamped]
    exact congrArg Exchange.unstamped hex
  · exact (hnet u).trans ((hm.alike.net u).trans (hnet' u).symm)
  · exact hframe.config.trans (hm.alike.config.trans hframe'.config.symm)
  · exact hframe.capacity.trans (hm.alike.capacity.trans hframe'.capacity.symm)

/-! ## The live engine -/

/-- What keeps a live engine trading: no key is accepted while it rests, quantities fit `i64`, a
tick size that is applied is a multiple of the map's and divides every price at rest, and every map
is well sized and wide. -/
def Engine.Tame (e : Engine) (a : Action) : Prop :=
  (match a with
  | .order msg _ _ => e.dedup.seen msg.key = false →
      (∀ h < e.book.orders.capacity, ∀ o ∈ e.book.held h, restingKey o ≠ msg.key) ∧
        e.book.exchange.totalQty + msg.qty ≤ i64Max
  | .applyConfig config .. => e.book.compression.tickSize ∣ config.tickSize ∧
      ∀ h < e.book.orders.capacity, ∀ o ∈ e.book.held h, config.tickSize ∣ o.price
  | _ => True) ∧ ∀ e' ∈ e.step a, WellSized e'.book.compression.midPrice
      e'.book.config.tickSize ∧ e'.book.compression.Wide

instance (e : Engine) : ∀ a, Decidable (e.Tame a)
  | .order .. => inferInstanceAs (Decidable ((_ → (∀ h < _, ∀ o ∈ _, _) ∧ _) ∧ ∀ e' ∈ _, _))
  | .cancel .. | .maintainUsers .. | .cleanup .. => inferInstanceAs (Decidable (True ∧ ∀ e' ∈ _, _))
  | .applyConfig .. =>
    inferInstanceAs (Decidable ((_ ∧ ∀ h < _, ∀ o ∈ _, _) ∧ ∀ e' ∈ _, _))

theorem Trading.held_all (ht : Trading b index) {P : Resting → Prop}
    (hall : ∀ h < b.orders.capacity, ∀ o ∈ b.held h, P o) : ∀ h o, b.held h = some o → P o :=
  fun h o ho => hall h (ht.tallied.bound h (by rw [ho]; simp)) o ho

theorem Trading.step (ht : Trading e.book e.orderIndex) (htame : e.Tame a)
    (hrun : e.step a = some e') :
    Trading e'.book e'.orderIndex ∧ e'.book.orders.capacity = e.book.orders.capacity := by
  obtain ⟨hsized, hwide⟩ := htame.2 e' hrun
  cases a with
  | order msg =>
    rcases processOrder_cases hrun with
      ⟨-, rfl⟩ | ⟨hseen, b, b', hprocess, hrecenter, rfl⟩
    · exact ⟨ht, rfl⟩
    obtain ⟨hkey, hfits⟩ := htame.1 hseen
    have hfresh : e.book.FreshFits (toIncoming msg) := ⟨rfl, hfits⟩
    obtain ⟨hb, hexec⟩ := ht.processNewOrder hfresh (ht.held_all hkey) hprocess
    obtain ⟨hb', -, -, hlasts⟩ := hb.maybeRecenter hsized hwide hrecenter
    exact ⟨hb', hlasts.capacity.trans hexec.frame.capacity⟩
  | cancel request =>
    rcases processCancel_cases hrun with
      ⟨-, rfl⟩ | ⟨found, hfound, ⟨-, rfl⟩ | ⟨-, bbo, rfl⟩⟩
    · exact ⟨ht, rfl⟩
    · exact ⟨ht.setEvents [], rfl⟩
    · have hindex : updateOrderIndex (cancelEvents request found (e.book.slot found) bbo)
          e.orderIndex = update e.orderIndex request.key none := by
        cases bbo <;> rfl
      obtain ⟨hcancel, hframe, -⟩ := (ht.setEvents []).cancelOrder hfound
      refine ⟨?_, hframe.capacity⟩
      show Trading _ (updateOrderIndex _ e.orderIndex)
      rw [hindex]
      exact hcancel.setEvents _
  | maintainUsers nowNs =>
    cases hrun
    exact ⟨ht.maintainUsers nowNs false, rfl⟩
  | cleanup =>
    cases hrun
    exact ⟨ht, rfl⟩
  | applyConfig =>
    cases hrun
    obtain ⟨q, free, hs⟩ := ht.sound
    obtain ⟨hmap, haligned⟩ := htame.1
    exact ⟨⟨⟨⟨q, free, ⟨hs.queued.congr rfl rfl rfl rfl, hs.exact, hs.asc, hs.placed, hs.tracks⟩,
      hmap, hs.uncrossed⟩, ht.fits⟩, ht.held_all haligned, ht.wide, ht.tallied, ht.covered,
      ht.normal, ht.indexes⟩, rfl⟩

theorem Trading.follow (ht : Trading e.book e.orderIndex)
    (htame : Along Engine.step Engine.Tame e actions)
    (hrun : run Engine.step e actions = some e') :
    Trading e'.book e'.orderIndex ∧ e'.book.orders.capacity = e.book.orders.capacity :=
  run_invariant (I := fun e' : Engine => Trading e'.book e'.orderIndex ∧
      e'.book.orders.capacity = e.book.orders.capacity)
    (fun h htame hstep => ⟨(h.1.step htame hstep).1, (h.1.step htame hstep).2.trans h.2⟩)
    ⟨ht, rfl⟩ htame hrun

/-! ## Live engine and replay -/

/-- A run under one config whose maps have two slots in the zones 1 to 3, in which an order meets no
more makers than it may fill and its key is not at rest already. -/
def Engine.Plain (e : Engine) (a : Action) : Prop :=
  (match a with
  | .order msg _ _ => e.dedup.seen msg.key = false →
      (∀ h < e.book.orders.capacity, ∀ o ∈ e.book.held h, restingKey o ≠ msg.key) ∧
        e.book.exchange.size ≤ maxMakersPerOrder
  | .applyConfig config .. => config = e.book.config
  | _ => True) ∧ ∀ e' ∈ e.step a, e'.book.compression.Wide

/-- The machine limits: quantities and positions fit `i64`, and the slots of every map fit `u32`. -/
def Engine.Within (e : Engine) (a : Action) : Prop :=
  (match a with
  | .order msg _ _ => e.dedup.seen msg.key = false →
      e.book.exchange.totalQty + msg.qty ≤ i64Max ∧ e.book.users.Roomy msg.qty
  | _ => True) ∧ ∀ e' ∈ e.step a, WellSized e'.book.compression.midPrice e'.book.config.tickSize

instance (e : Engine) : ∀ a, Decidable (e.Plain a)
  | .order .. => inferInstanceAs (Decidable ((_ → (∀ h < _, ∀ o ∈ _, _) ∧ _) ∧ ∀ e' ∈ _, _))
  | .cancel .. | .maintainUsers .. | .cleanup .. => inferInstanceAs (Decidable (True ∧ ∀ e' ∈ _, _))
  | .applyConfig .. => inferInstanceAs (Decidable (_ = _ ∧ ∀ e' ∈ _, _))

instance (e : Engine) : ∀ a, Decidable (e.Within a)
  | .order .. => inferInstanceAs (Decidable ((_ → _ ∧ _) ∧ ∀ e' ∈ _, _))
  | .cancel .. | .maintainUsers .. | .cleanup .. | .applyConfig .. =>
    inferInstanceAs (Decidable (True ∧ ∀ e' ∈ _, _))

theorem Engine.Plain.tame (ht : Trading e.book e.orderIndex) (hplain : e.Plain a)
    (hwithin : e.Within a) : e.Tame a := by
  refine ⟨?_, fun e' he' => ⟨hwithin.2 e' he', hplain.2 e' he'⟩⟩
  cases a with
  | order =>
    exact fun hseen => ⟨(hplain.1 hseen).1, (hwithin.1 hseen).1⟩
  | applyConfig config =>
    obtain rfl : config = e.book.config := hplain.1
    obtain ⟨_, _, hs⟩ := ht.sound
    exact ⟨hs.tick, fun h _ o ho => ht.aligned h o ho⟩
  | cancel | maintainUsers | cleanup => trivial

def Record.isFill : Record → Bool
  | .fill _ => true
  | _ => false

/-- What an action logs: nothing, or a record that carries its effect and others that a replay
skips. -/
structure Logged (e e' : Engine) (r r' : Replay) (records : List Record) : Prop where
  wal : e'.wal = e.wal.appendAll records
  replay : records = [] ∧ r' = r ∨ ∃ head tail, records = head :: tail ∧ head.isFill = false ∧
    (∀ record ∈ tail, record.Quiet) ∧ r.apply head = some r'
  mirrors : Mirrors e' r'
  lasts : Lasts e.book e'.book
  net : ∀ u, e'.book.users.netOf u = e.book.users.netOf u + loggedPosition records u

theorem Logged.run_apply {r' : Replay} (h : Logged e e' r r' records) :
    run Replay.apply r records = some r' := by
  rcases h.replay with ⟨rfl, rfl⟩ | ⟨head, tail, rfl, -, hquiet, happly⟩
  · rfl
  · rw [run, happly]
    exact run_apply_quiet hquiet r'

/-- **One action and its replay.** -/
theorem Mirrors.step (hm : Mirrors e r) (hplain : e.Plain a) (hwithin : e.Within a)
    (hrun : e.step a = some e') : ∃ records r', Logged e e' r r' records := by
  obtain ⟨hsized, hwide⟩ := (hplain.tame hm.live hwithin).2 e' hrun
  have hlive := (hm.live.step (hplain.tame hm.live hwithin) hrun).1
  cases a with
  | order msg acceptNs publishNs =>
    rcases processOrder_cases hrun with
      ⟨-, rfl⟩ | ⟨hseen, b, b', hprocess, hrecenter, rfl⟩
    · exact ⟨[_], r, rfl, .inr ⟨_, _, rfl, rfl, by simp, rfl⟩, ⟨hlive, hm.replay, hm.alike⟩,
        .refl _, fun u => (add_zero _).symm⟩
    obtain ⟨hkey, hsize⟩ := hplain.1 hseen
    obtain ⟨hfits, hroom⟩ := hwithin.1 hseen
    have hfresh : e.book.FreshFits (toIncoming msg) := ⟨rfl, hfits⟩
    have hroom' : ∀ u, ((e.book.users.netOf u).natAbs : Int) + msg.qty ≤ i64Max :=
      hroom.netOf hm.live.tallied.consistent (hm.live.le_of_fits hfits)
    obtain ⟨hb, hexec⟩ := hm.live.processNewOrder hfresh (hm.live.held_all hkey) hprocess
    obtain ⟨r', happly, hreplay, halike⟩ :=
      hm.accept (hm.live.held_all hkey) hsize hfits hroom' hprocess acceptNs
    obtain ⟨-, hex, husers, hlasts⟩ := hb.maybeRecenter hsized hwide hrecenter
    refine ⟨.orderAccepted (msg.accepted acceptNs) :: b.eventBuf.map (eventRecord b publishNs), r',
      rfl, .inr ⟨_, _, rfl, rfl, hm.live.quiet hfresh hprocess publishNs, happly⟩,
      ⟨hlive, hreplay, hex ▸ halike.exchange, husers ▸ halike.net,
        hlasts.config.trans halike.config, hlasts.capacity.trans halike.capacity⟩,
      (Lasts.of_frame hexec.frame).trans hlasts, fun u => ?_⟩
    have hnet := hm.live.netOf_logged hfresh hprocess hroom' publishNs u
    rw [husers, hnet]
    exact congrArg _ (zero_add _).symm
  | cancel request publishNs =>
    rcases processCancel_cases hrun with
      ⟨-, rfl⟩ | ⟨found, hfound, ⟨-, rfl⟩ | ⟨-, bbo, rfl⟩⟩
    · exact ⟨[], r, rfl, .inl ⟨rfl, rfl⟩, hm, .refl _, fun u => (add_zero _).symm⟩
    · exact ⟨[], r, rfl, .inl ⟨rfl, rfl⟩, ⟨hlive, hm.replay, hm.alike.1, hm.alike.2, hm.alike.3,
        hm.alike.4⟩, ⟨rfl, rfl, id⟩, fun u => (add_zero _).symm⟩
    · let events := cancelEvents request found (e.book.slot found) bbo
      let book : Orderbook :=
        { ((cleared e.book).cancelOrder found).2 with eventBuf := events }
      obtain ⟨r', happly, hreplay, halike⟩ := hm.cancel hfound events publishNs
        (e.book.slot found).remainingQty (slotFlags book found).1 (slotFlags book found).2
      obtain ⟨-, hframe, -, hnet⟩ := (hm.live.setEvents []).cancelOrder hfound
      have hquiet : ∀ record ∈ (events.map (eventRecord book publishNs)).tail, record.Quiet := by
        cases bbo <;> simp [events, cancelEvents, eventRecord, Record.Quiet, Bbo.event]
      refine ⟨events.map (eventRecord book publishNs), r', rfl,
        .inr ⟨_, _, rfl, rfl, hquiet, happly⟩, ⟨hlive, hreplay, halike⟩,
        .of_frame (hframe.setEvents e.book.eventBuf _), fun u => ?_⟩
      have hzero : loggedPosition (events.map (eventRecord book publishNs)) u = 0 := by
        cases bbo <;> rfl
      rw [hzero, add_zero]
      exact hnet u
  | maintainUsers nowNs =>
    cases hrun
    have hnet := (hm.live.tallied.consistent.maintainOne nowNs false).2
    exact ⟨[], r, rfl, .inl ⟨rfl, rfl⟩, ⟨hlive, hm.replay, hm.alike.exchange,
      fun u => (hnet u).1.trans (hm.alike.net u), hm.alike.config, hm.alike.capacity⟩,
      ⟨rfl, rfl, id⟩, fun u => (hnet u).1.trans (add_zero _).symm⟩
  | cleanup =>
    cases hrun
    exact ⟨[], r, rfl, .inl ⟨rfl, rfl⟩, ⟨hlive, hm.replay, hm.alike⟩, .refl _,
      fun u => (add_zero _).symm⟩
  | applyConfig config =>
    cases hrun
    obtain rfl : config = e.book.config := hplain.1
    exact ⟨[_], r, rfl, .inr ⟨_, _, rfl, rfl, by simp, rfl⟩, ⟨hlive, hm.replay, hm.alike⟩,
      .refl _, fun u => (add_zero _).symm⟩

theorem WalWriter.appendAll_append (w : WalWriter) (records records' : List Record) :
    w.appendAll (records ++ records') = (w.appendAll records).appendAll records' :=
  foldl_append

/-- **A run and its replay.** -/
theorem Mirrors.follow (hm : Mirrors e r) (hplain : Along Engine.step Engine.Plain e actions)
    (hwithin : Along Engine.step Engine.Within e actions)
    (hrun : run Engine.step e actions = some e') :
    ∃ records r', e'.wal = e.wal.appendAll records ∧ run Replay.apply r records = some r' ∧
      Mirrors e' r' ∧ Lasts e.book e'.book ∧
      ∀ u, e'.book.users.netOf u = e.book.users.netOf u + loggedPosition records u := by
  induction actions generalizing e r with
  | nil =>
    cases hrun
    exact ⟨[], r, rfl, rfl, hm, .refl _, fun u => (add_zero _).symm⟩
  | cons a actions ih =>
    obtain ⟨e₁, hstep, hrest⟩ := Option.bind_eq_some_iff.1 hrun
    obtain ⟨records₁, _, hlogged⟩ := hm.step hplain.1 hwithin.1 hstep
    obtain ⟨records₂, r₂, hwal₂, hreplay₂, hm₂, hlasts₂, hnet₂⟩ :=
      ih hlogged.mirrors (hplain.2 e₁ hstep) (hwithin.2 e₁ hstep) hrest
    refine ⟨records₁ ++ records₂, r₂, ?_, ?_, hm₂, hlogged.lasts.trans hlasts₂, fun u => ?_⟩
    · rw [hwal₂, hlogged.wal, WalWriter.appendAll_append]
    · rw [run_append, hlogged.run_apply]
      exact hreplay₂
    · rw [hnet₂, hlogged.net, loggedPosition_append, add_assoc]

/-! ## Cancels -/

variable {request : CancelRequest}

theorem Trading.without_of_none (ht : Trading b index) (hnone : index key = none) :
    without b.exchange key = b.exchange := by
  ext1
  funext s
  refine filter_eq_self.2 fun o ho => decide_eq_true fun hkey => ?_
  obtain ⟨h, hh⟩ := ht.mem_orders ho
  exact absurd ((ht.indexes key h).2 ⟨o, hh, hkey⟩) (by simp [hnone])

theorem Trading.orderMatches (ht : Trading b index) (hindex : index request.key = some handle) :
    b.orderMatches handle request.userId request.orderIdHi request.orderIdLo = true := by
  obtain ⟨o, hheld, hkey⟩ := (ht.indexes _ handle).1 hindex
  obtain ⟨_, _, hs⟩ := ht.sound
  have hlt := hs.queued.held_lt (by rw [hheld]; simp)
  unfold held at hheld
  split_ifs at hheld with hactive
  cases hheld
  obtain ⟨huser, hid⟩ := Prod.mk.inj hkey
  obtain ⟨hhi, hlo⟩ := Prod.mk.inj hid
  exact decide_eq_true ⟨hlt, hactive, huser, hhi, hlo⟩

/-- **A cancel takes out its own order.**  In every tame run the index finds exactly the orders at
rest, so a cancel meets no stale handle: it removes the order with its key, and nothing else. -/
theorem cancel_takes_own_order {config : BookConfig} {capacity : Nat} (hcap : capacity ≤ NONE)
    (hsized : WellSized bookInitialMidPrice config.tickSize)
    (hwide : (CompressionMap.new bookInitialMidPrice config.tickSize).Wide)
    (htame : Along step Tame (new config capacity) actions)
    (hrun : run step (new config capacity) actions = some e)
    (hcancel : e.processCancel request publishNs = some e') :
    Indexes e.book.held e.orderIndex ∧
      e'.book.exchange = without e.book.exchange request.key ∧
      ∀ u, e'.book.users.netOf u = e.book.users.netOf u := by
  have hnew : Trading (Engine.new config capacity).book (Engine.new config capacity).orderIndex :=
    trading_new hsized hwide hcap
  obtain ⟨ht, -⟩ := hnew.follow htame hrun
  refine ⟨ht.indexes, ?_⟩
  rcases processCancel_cases hcancel with ⟨hnone, rfl⟩ | ⟨found, hfound, ⟨hstale, -⟩ | ⟨-, _, rfl⟩⟩
  · exact ⟨(ht.without_of_none hnone).symm, fun _ => rfl⟩
  · exact absurd (hstale.symm.trans (ht.orderMatches hfound)) Bool.false_ne_true
  · obtain ⟨-, -, hexchange, hnet⟩ := (ht.setEvents []).cancelOrder hfound
    exact ⟨hexchange, hnet⟩

/-- A fill frees the handle of the first order, and an order of the other user gets it. -/
def handleReused : List Action :=
  [.limit 1 1 1 0 50100 3, .limit 2 2 0 0 50100 3, .limit 2 3 1 0 50200 4, .limit 1 4 0 0 49900 5]

theorem cancel_takes_own_order_handleReused :
    ∃ e ∈ run step (new ⟨1, 1, 1⟩ 8) handleReused, e.book.exchange.size = 2 ∧
      (e.book.held 0).map (fun o => (o.userId, o.orderIdLo)) = some (2, 3) ∧
      (∃ e' ∈ e.processCancel ⟨1, 0, 1⟩ 0, e'.book.exchange.size = 2 ∧
        e'.book.exchange = without e.book.exchange (1, 0, 1)) ∧
      ∃ e' ∈ e.processCancel ⟨2, 0, 3⟩ 0, e'.book.exchange.size = 1 ∧
        e'.book.exchange = without e.book.exchange (2, 0, 3) := by
  have hend : ∃ e ∈ run step (new ⟨1, 1, 1⟩ 8) handleReused, e.book.exchange.size = 2 ∧
      (e.book.held 0).map (fun o => (o.userId, o.orderIdLo)) = some (2, 3) ∧
      (∃ e' ∈ e.processCancel ⟨1, 0, 1⟩ 0, e'.book.exchange.size = 2) ∧
      ∃ e' ∈ e.processCancel ⟨2, 0, 3⟩ 0, e'.book.exchange.size = 1 := by
    decide +kernel
  obtain ⟨e, he, hsize, hheld, ⟨e₁, hgone, hsize₁⟩, e₂, hresting, hsize₂⟩ := hend
  have htaken {request : CancelRequest} {e' : Engine}
      (hcancel : e.processCancel request 0 = some e') :
      e'.book.exchange = without e.book.exchange request.key :=
    (cancel_takes_own_order (by decide) (by decide +kernel) (by decide +kernel)
      (by decide +kernel) he hcancel).2.1
  exact ⟨e, he, hsize, hheld, ⟨e₁, hgone, hsize₁, htaken hgone⟩, e₂, hresting, hsize₂,
    htaken hresting⟩

end Rsx.Matching
