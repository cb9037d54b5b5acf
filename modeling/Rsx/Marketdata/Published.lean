import Rsx.Marketdata.Ledger
import Rsx.Matching.Step

/-!
# The records of the matching engine

Every step of the engine writes records that turn the ledger of its book before into that of its
book after, and each of them can be followed: an order that comes to rest has a new id, and a fill
takes no more than what rests.  -/

namespace Rsx.Marketdata

open Function Book Book.Orderbook Matching

def ledgerStep (L : Ledger) (r : Record) : Option Ledger :=
  some (L.record r)

/-- A record that a follower with `room` for resting orders and for prices up to `top` can apply. -/
def Admits (room : Nat) (top : Int) (L : Ledger) : Record → Prop
  | .orderInserted _ _ orderIdHi orderIdLo price qty _ _ _ =>
    0 < price ∧ price ≤ top ∧ 0 < qty ∧ L (orderIdHi, orderIdLo) = none ∧
      ∃ n held, Lists n held L ∧ heldQty n held (fun _ => true) + qty ≤ i64Max ∧
        (quotesOf n held).length < room
  | .fill rec => 0 < rec.qty ∧ ∃ x, L (rec.makerOrderIdHi, rec.makerOrderIdLo) = some x ∧
      rec.qty ≤ x.qty
  | _ => True

def AdmitsAll (room : Nat) (top : Int) : Ledger → List Record → Prop :=
  Along ledgerStep (Admits room top)

section Records

variable {room n : Nat} {top : Int} {L : Ledger} {held : Nat → Option Resting}
  {records records' : List Record}
  {r : Record}

theorem records_append (L : Ledger) (records records' : List Record) :
    L.records (records ++ records') = (L.records records).records records' :=
  List.foldl_append ..

theorem run_ledgerStep (L : Ledger) (records : List Record) :
    run ledgerStep L records = some (L.records records) :=
  run_total Ledger.record L records

theorem AdmitsAll.append (h : AdmitsAll room top L records)
    (h' : AdmitsAll room top (L.records records) records') :
    AdmitsAll room top L (records ++ records') := by
  refine Along.append h fun L' hL' => ?_
  rw [run_ledgerStep] at hL'
  obtain rfl := Option.some.inj hL'
  exact h'

theorem AdmitsAll.cons (h : Admits room top L r)
    (h' : AdmitsAll room top (L.record r) records) : AdmitsAll room top L (r :: records) := by
  refine ⟨h, fun L' hL' => ?_⟩
  obtain rfl := Option.some.inj hL'
  exact h'

def Quiet : Record → Prop
  | .orderInserted .. => False
  | .orderCancelled .. => False
  | .fill _ => False
  | _ => True

theorem Quiet.record (h : Quiet r) (L : Ledger) : L.record r = L := by
  cases r <;> first | rfl | exact h.elim

theorem Quiet.admits (h : Quiet r) (room : Nat) (top : Int) (L : Ledger) : Admits room top L r := by
  cases r <;> trivial

theorem quiet_records (h : ∀ r ∈ records, Quiet r) (room : Nat) (top : Int) (L : Ledger) :
    AdmitsAll room top L records ∧ L.records records = L := by
  induction records with
  | nil => exact ⟨trivial, rfl⟩
  | cons r records ih =>
    have hr : Quiet r := h r (List.mem_cons_self ..)
    obtain ⟨hall, hsame⟩ := ih fun r' hr' => h r' (List.mem_cons_of_mem _ hr')
    have hrecord := hr.record L
    refine ⟨.cons (hr.admits room top L) ?_, ?_⟩
    · rw [hrecord]
      exact hall
    · show Ledger.records (L.record r) records = L
      rw [hrecord, hsame]

theorem quiet_bbo (bbo : Option Bbo) (book : Orderbook) (tsNs : Nat) :
    ∀ r ∈ (bbo.toList.map Bbo.event).map (eventRecord book tsNs), Quiet r := by
  intro r hmem
  obtain ⟨_, hevent, rfl⟩ := List.mem_map.1 hmem
  obtain ⟨_, -, rfl⟩ := List.mem_map.1 hevent
  trivial

/-! ## Fills -/

variable {fill : Entry × Int} {fills : List (Entry × Int)}

theorem Lists.oneFill (hl : Lists n held L) (hheld : held fill.1.handle = some fill.1.order)
    (hpos : 0 < fill.2) (hle : fill.2 ≤ fill.1.order.remainingQty) (taker : IncomingOrder)
    (b : Orderbook) (tsNs room : Nat) (top : Int) :
    let records := (fillEvents taker fill).map (eventRecord b tsNs)
    AdmitsAll room top L records ∧ Lists n (fillHeld held fill) (L.records records) := by
  have hquoted := hl.quoted _ _ hheld
  have hadmits : Admits room top L (eventRecord b tsNs (fillEvent taker fill)) :=
    ⟨hpos, _, hquoted, hle⟩
  -- What the fill leaves, in the ledger and in the book.
  have hlists : Lists n (fillHeld held fill)
      (L.record (eventRecord b tsNs (fillEvent taker fill))) := by
    have hrecord : L.record (eventRecord b tsNs (fillEvent taker fill)) =
        update L (orderId fill.1.order) ((quote fill.1.order).less fill.2) := by
      show update L (orderId fill.1.order) ((L (orderId fill.1.order)).bind _) = _
      rw [hquoted]
      rfl
    rw [hrecord]
    unfold fillHeld Quote.less
    dsimp only
    by_cases hfull : fill.1.order.remainingQty = fill.2
    · rw [if_pos hfull, if_pos (show (quote fill.1.order).qty - fill.2 ≤ 0 from
        (sub_eq_zero.2 hfull).le)]
      exact hl.remove hheld
    · rw [if_neg hfull, if_neg (show ¬ (quote fill.1.order).qty - fill.2 ≤ 0 from by
        show ¬ fill.1.order.remainingQty - fill.2 ≤ 0
        omega)]
      exact hl.change hheld rfl
  have hrest : ∀ r ∈ (if fill.1.order.remainingQty = fill.2 then [filledEvent fill.1] else []).map
      (eventRecord b tsNs), Quiet r := by
    intro r hr
    split_ifs at hr
    · obtain rfl := List.mem_singleton.1 hr
      trivial
    · cases hr
  obtain ⟨hall, hsame⟩ := quiet_records hrest room top
    (L.record (eventRecord b tsNs (fillEvent taker fill)))
  refine ⟨.cons hadmits hall, ?_⟩
  show Lists n _ (Ledger.records (L.record (eventRecord b tsNs (fillEvent taker fill))) _)
  rw [hsame]
  exact hlists

theorem Lists.foldFills (hl : Lists n held L) (hd : Drawn held fills) (taker : IncomingOrder)
    (b : Orderbook) (tsNs room : Nat) (top : Int) :
    let records := (fills.flatMap (fillEvents taker)).map (eventRecord b tsNs)
    AdmitsAll room top L records ∧ Lists n (fills.foldl fillHeld held) (L.records records) := by
  induction fills generalizing held L with
  | nil => exact ⟨trivial, hl⟩
  | cons fill fills ih =>
    obtain ⟨hheld, -, hpos, hle, hrest⟩ := hd
    obtain ⟨hall, hlists⟩ := hl.oneFill hheld hpos hle taker b tsNs room top
    obtain ⟨hall', hlists'⟩ := ih hlists hrest
    intro records
    have hrecords : records = (fillEvents taker fill).map (eventRecord b tsNs) ++
        (fills.flatMap (fillEvents taker)).map (eventRecord b tsNs) := by
      rw [← List.map_append, ← List.flatMap_cons]
    rw [hrecords, records_append]
    exact ⟨hall.append hall', hlists'⟩

end Records

theorem length_quotesOf (n : Nat) (held : Nat → Option Resting) :
    (quotesOf n held).length = (List.range n).countP fun h => (held h).isSome := by
  unfold quotesOf
  induction List.range n with
  | nil => rfl
  | cons h l ih =>
    cases hh : held h with
    | none | some => simpa [hh] using ih

theorem length_quotesOf_insert {n h : Nat} {held : Nat → Option Resting} (hh : h < n)
    (hnone : held h = none) (o : Resting) :
    (quotesOf n (update held h (some o))).length = (quotesOf n held).length + 1 := by
  rw [length_quotesOf, length_quotesOf]
  have hchange := Buckets.countP_range_change (fun x => (held x).isSome)
    (fun x => (update held h (some o) x).isSome) hh
    fun x hx => by rw [update_of_ne hx]
  simpa [hnone] using hchange

/-! ## One order -/

section Order

variable {room n : Nat} {top : Int} {L : Ledger} {held : Nat → Option Resting} {b b' : Orderbook}
  {order : IncomingOrder} {fills : List (Entry × Int)} {handle : Nat} {ending : Ending}
  {bbo : Option Bbo} {q' : Nat → List Nat} {free' : List Nat}

theorem Lists.ended (hl : Lists n held L) (hprice : 0 < order.price ∧ order.price ≤ top)
    (hinserted : ∀ rest, ending = .inserted rest → 0 < rest ∧ handle < n ∧ held handle = none ∧
      L (orderId order.resting) = none ∧ heldQty n held (fun _ => true) + rest ≤ i64Max ∧
      (quotesOf n held).length < room) (bbo : Option Bbo) (book : Orderbook) (tsNs : Nat) :
    let records := (endEvent order handle ending :: bbo.toList.map Bbo.event).map
      (eventRecord book tsNs)
    AdmitsAll room top L records ∧ Lists n (endHeld order handle held ending)
    (L.records records) := by
  have hbbo := quiet_bbo bbo book tsNs
  intro records
  cases ending with
  | inserted rest =>
    obtain ⟨hrest, hlt, hempty, hnone, hsum, hcount⟩ := hinserted rest rfl
    obtain ⟨hquiet, hsame⟩ := quiet_records hbbo room top
      (L.record (eventRecord book tsNs (endEvent order handle (.inserted rest))))
    refine ⟨.cons ⟨hprice.1, hprice.2, hrest, hnone, n, held, hl, hsum, hcount⟩ hquiet, ?_⟩
    show Lists _ _ (Ledger.records (L.record _) _)
    rw [hsame]
    exact hl.insert (o := (order.setRemaining rest).resting) hlt hempty hnone
  | done | failed =>
    have hquiet : ∀ r ∈ records, Quiet r := List.forall_mem_cons.2 ⟨trivial, hbbo⟩
    obtain ⟨hall, hsame⟩ := quiet_records hquiet room top L
    exact ⟨hall, hsame.symm ▸ hl⟩

theorem Lists.recorded (hl : Lists b.orders.capacity b.held L)
    (hr : Recorded order b fills handle ending bbo b') (hq' : Queued b' q' free')
    (hqty : 0 ≤ order.remainingQty)
    (hsum : heldQty b.orders.capacity b.held (fun _ => true) + order.remainingQty ≤ i64Max)
    (hprice : 0 < order.price ∧ order.price ≤ top)
    (hfresh : ∀ h o, b.held h = some o → orderId o ≠ orderId order.resting)
    (hroom : (quotesOf b'.orders.capacity b'.held).length ≤ room) (book : Orderbook) (tsNs : Nat) :
    let records := b'.eventBuf.map (eventRecord book tsNs)
    AdmitsAll room top L records ∧ Lists b'.orders.capacity b'.held (L.records records) := by
  obtain ⟨hall, hlists⟩ := hl.foldFills hr.drawn order book tsNs room top
  have hcapacity := hr.frame.capacity
  have hinserted : ∀ rest, ending = .inserted rest → 0 < rest ∧ handle < b.orders.capacity ∧
      fills.foldl fillHeld b.held handle = none ∧
      L.records ((fills.flatMap (fillEvents order)).map (eventRecord book tsNs))
        (orderId order.resting) = none ∧
      heldQty b.orders.capacity (fills.foldl fillHeld b.held) (fun _ => true) + rest ≤ i64Max ∧
      (quotesOf b.orders.capacity (fills.foldl fillHeld b.held)).length < room := by
    rintro rest rfl
    obtain ⟨hrest, _⟩ := hr.accounts hqty
    have hlast : b'.held = update (fills.foldl fillHeld b.held) handle
        (some (order.setRemaining rest).resting) := hr.held
    have hlt : handle < b.orders.capacity := by
      rw [← hcapacity]
      refine hq'.held_lt ?_
      rw [hlast, update_self]
      exact Option.some_ne_none _
    refine ⟨hrest, hlt, hr.fresh, ?_, ?_, ?_⟩
    · refine Option.eq_none_iff_forall_ne_some.2 fun x hfound => ?_
      obtain ⟨h, o, ho, hid⟩ := hlists.found _ x hfound
      exact hr.drawn.forall_held (P := fun o => orderId o ≠ orderId order.resting)
        (fun _ _ hne => hne) hfresh h o ho hid
    · have htotal := hr.drawn.heldQty fun h hh => hl.bound h hh
      have hpos := hr.drawn.filledQty_nonneg
      omega
    · rw [hlast, hcapacity, length_quotesOf_insert hlt hr.fresh] at hroom
      omega
  obtain ⟨hall', hlists'⟩ := hlists.ended hprice hinserted bbo book tsNs
  intro records
  have hrecords : records = (fills.flatMap (fillEvents order)).map (eventRecord book tsNs) ++
      (endEvent order handle ending :: bbo.toList.map Bbo.event).map (eventRecord book tsNs) := by
    rw [← List.map_append, ← hr.events]
  rw [hrecords, records_append, hcapacity, hr.held]
  exact ⟨hall.append hall', hlists'⟩

end Order

/-! ## Runs -/

/-- No order that is accepted has the id of one that rests. -/
def FreshId (e : Engine) : Action → Prop
  | .order msg _ _ => e.dedup.seen msg.key = false →
      ∀ o ∈ e.book.resting, orderId o ≠ (msg.orderIdHi, msg.orderIdLo)
  | _ => True

instance (e : Engine) : ∀ a, Decidable (FreshId e a)
  | .order .. => inferInstanceAs (Decidable (_ → ∀ o ∈ _, _))
  | .cancel .. | .maintainUsers .. | .cleanup .. | .applyConfig .. => .isTrue trivial

/-- With a new order the quantities of the book fit `i64`, and its price is at most `top`. -/
def Modest (top : Int) (e : Engine) : Action → Prop
  | .order msg _ _ => e.book.exchange.totalQty + msg.qty ≤ i64Max ∧ msg.price ≤ top
  | _ => True

instance (top : Int) (e : Engine) : ∀ a, Decidable (Modest top e a)
  | .order .. => inferInstanceAs (Decidable (_ ∧ _))
  | .cancel .. | .maintainUsers .. | .cleanup .. | .applyConfig .. => .isTrue trivial

structure Published (e : Engine) (L : Ledger) : Prop where
  healthy : e.Healthy
  lists : Lists e.book.orders.capacity e.book.held L

namespace Published

variable {e e' : Engine} {L : Ledger} {a : Action} {room : Nat} {top : Int}

theorem new (config : BookConfig) {capacity : Nat} (hcap : capacity ≤ NONE) :
    Published (Engine.new config capacity) fun _ => none where
  healthy := Engine.healthy_new hcap
  lists := Lists.empty _

theorem legal (h : Modest top e a) : e.Legal a := by
  cases a with
  | order => exact h.1
  | _ => trivial

theorem order (h : Published e L) {msg : OrderMessage} {b b' : Orderbook}
    (hmodest : e.book.exchange.totalQty + msg.qty ≤ i64Max ∧ msg.price ≤ top)
    (hfresh : ∀ o ∈ e.book.resting, orderId o ≠ (msg.orderIdHi, msg.orderIdLo))
    (hprocess : e.book.processNewOrder (toIncoming msg) = some b)
    (hrecenter : maybeRecenter b = some b')
    (hroom : (quotesOf b'.orders.capacity b'.held).length ≤ room) (tsNs : Nat) :
    let records := b.eventBuf.map (eventRecord b tsNs)
    AdmitsAll room top L records ∧ Lists b'.orders.capacity b'.held (L.records records) := by
  obtain ⟨_, _, hk⟩ := h.healthy.kept
  obtain ⟨⟨_, _, hk₁⟩, htotal₁, effective, _, _, _, _, hr, hcase⟩ :=
    Engine.processNewOrder_recorded hk h.healthy.totalQty_le hmodest.1 hprocess
  obtain ⟨_, _, hheld, -, -, -, hcap⟩ := maybeRecenter_kept hk₁ htotal₁ hrecenter
  rw [hcap, hheld] at hroom ⊢
  rcases hcase with haccepted | ⟨rfl, rfl, reason, rfl⟩
  · obtain ⟨hclamped, hpos, hle⟩ := haccepted.eq_setRemaining
    have hprice : effective.price = msg.price := by
      rw [hclamped]
      rfl
    have hid : orderId effective.resting = (msg.orderIdHi, msg.orderIdLo) := by
      rw [hclamped]
      rfl
    refine h.lists.recorded hr hk₁.queued hpos.le ?_ ?_ ?_ hroom b tsNs
    · rw [hk.queued.heldQty_eq]
      have hle' : effective.remainingQty ≤ msg.qty := hle
      omega
    · rw [hprice]
      exact ⟨haccepted.price_pos, hmodest.2⟩
    · intro x o ho
      rw [hid]
      refine hfresh o ?_
      obtain ⟨t, ht⟩ := (hk.queued.active x).1 (by
        by_contra hinactive
        rw [Orderbook.held, if_neg hinactive] at ho
        cases ho)
      have hactive : (e.book.slot x).active = true := (hk.queued.active x).2 ⟨t, ht⟩
      rw [held_eq hactive] at ho
      cases ho
      exact hk.queued.mem_resting.2 ⟨t, e.book.entry x, List.mem_map.2 ⟨x, ht, rfl⟩, rfl⟩
  · -- An order that was turned away leaves everything as it was.
    have hquiet : ∀ r ∈ b.eventBuf.map (eventRecord b tsNs), Quiet r := by
      rw [hr.events]
      exact List.forall_mem_cons.2 ⟨trivial, quiet_bbo _ _ _⟩
    obtain ⟨hall, hsame⟩ := quiet_records hquiet room top L
    have hheld' : b.held = e.book.held := hr.held
    refine ⟨hall, ?_⟩
    rw [hsame, hheld', hr.frame.capacity]
    exact h.lists

/-- **One action.**  Its records can be followed, and give the ledger of the book after it. -/
theorem step (h : Published e L) (hmodest : Modest top e a) (hfresh : FreshId e a)
    (hstep : e.step a = some e') (hroom : e'.book.resting.length ≤ room) :
    AdmitsAll room top L (newRecords e e') ∧ Published e' (L.records (newRecords e e')) := by
  have hhealthy : e'.Healthy := h.healthy.step (legal hmodest) hstep
  obtain ⟨q, free, hk⟩ := h.healthy.kept
  rcases Engine.step_cases hstep with
    ⟨msg, acceptNs, publishNs, b, b', rfl, hseen, hprocess, hrecenter, rfl⟩ |
    ⟨request, publishNs, found, bbo, rfl, -, hmatches, rfl⟩ | ⟨hheld, hcap, records, hwal, hnotices⟩
  · have hnew : newRecords e (e.accepted msg acceptNs publishNs b b') =
        .orderAccepted (msg.accepted acceptNs) :: b.eventBuf.map (eventRecord b publishNs) :=
      newRecords_eq rfl
    have hlength : (quotesOf b'.orders.capacity b'.held).length ≤ room := by
      obtain ⟨_, _, hk'⟩ := hhealthy.kept
      have hperm := (quotes_perm_quotesOf hk'.queued).length_eq
      rw [quotes, List.length_map] at hperm
      exact hperm ▸ hroom
    obtain ⟨hall, hlists⟩ := h.order hmodest (hfresh hseen) hprocess hrecenter hlength publishNs
    rw [hnew]
    exact ⟨.cons trivial hall, hhealthy, hlists⟩
  · obtain ⟨-, hactive, -, hhi, hlo⟩ := of_decide_eq_true hmatches
    have hheldAt : e.book.held found = some (e.book.slot found).resting := held_eq hactive
    have hk₀ : Kept (Engine.cleared e.book) q free := hk.congr [] _
    obtain ⟨-, hframe, hheld, -⟩ := hk₀.cancelOrder hactive
    set events := Engine.cancelEvents request found (e.book.slot found) bbo
    set e' := e.cancelled publishNs found events
    have hnew : newRecords e e' = events.map (eventRecord e'.book publishNs) := newRecords_eq rfl
    have hrest : ∀ r ∈ events.tail.map (eventRecord e'.book publishNs), Quiet r :=
      List.forall_mem_cons.2 ⟨trivial, quiet_bbo _ _ _⟩
    have hid : (request.orderIdHi, request.orderIdLo) = orderId (e.book.slot found).resting := by
      rw [← hhi, ← hlo]
      rfl
    obtain ⟨hall, hsame⟩ := quiet_records hrest room top
      (update L (request.orderIdHi, request.orderIdLo) none)
    rw [hnew]
    refine ⟨.cons trivial hall, hhealthy, ?_⟩
    have hrecords : L.records (events.map (eventRecord e'.book publishNs)) =
        update L (request.orderIdHi, request.orderIdLo) none := hsame
    have hcapacity : e'.book.orders.capacity = e.book.orders.capacity := hframe.capacity
    have hheld' : e'.book.held = update e.book.held found none := hheld
    rw [hrecords, hcapacity, hheld', hid]
    exact h.lists.remove hheldAt
  · have hquiet : ∀ r ∈ records, Quiet r := fun r hmem => by
      have hnotice := hnotices r hmem
      cases r <;> trivial
    obtain ⟨hall, hsame⟩ := quiet_records hquiet room top L
    rw [newRecords_eq hwal, hsame]
    exact ⟨hall, hhealthy, by rw [hheld, hcap]; exact h.lists⟩

end Published

end Rsx.Marketdata
