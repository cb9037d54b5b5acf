import Rsx.Matching.ReduceOnly

/-!
# Reported fill totals

Beside the engine runs a proof-only account of every order: the quantity it was accepted for and
what has been filled of it, read off the records of the log.  An `ORDER_DONE` should report that
account.  It does for a taker; a maker reports the quantity it came to rest with, and a cancel
reports that nothing was filled.
-/

namespace Rsx.Matching

open Function Book Orderbook PriceTime HasQty List Engine Option

/-- What an order was accepted for and what has been filled of it. -/
structure Life where
  accepted : Int
  filled : Int
  deriving DecidableEq

abbrev Lives := OrderKey → Option Life

def Lives.addFill (lives : Lives) (key : OrderKey) (qty : Int) : Lives :=
  update lives key ((lives key).map fun life => { life with filled := life.filled + qty })

/-- What a record says of the orders it names.  An order that is accepted while the book is `book`
is accepted for what the reduce-only clamp leaves of it. -/
def recordLives (book : Orderbook) (lives : Lives) : Record → Lives
  | .orderAccepted order =>
    update lives (order.userId, order.orderIdHi, order.orderIdLo)
      (some ⟨(book.effectiveOrder order.toIncoming).remainingQty, 0⟩)
  | .fill fill =>
    (lives.addFill (fill.takerUserId, fill.takerOrderIdHi, fill.takerOrderIdLo) fill.qty).addFill
      (fill.makerUserId, fill.makerOrderIdHi, fill.makerOrderIdLo) fill.qty
  | .orderDone _ userId orderIdHi orderIdLo _ _ _ _ _ _ =>
    update lives (userId, orderIdHi, orderIdLo) none
  | _ => lives

def DoneReports (lives : Lives) : Record → Prop
  | .orderDone _ userId orderIdHi orderIdLo filledQty remainingQty _ _ _ _ =>
    lives (userId, orderIdHi, orderIdLo) = some ⟨filledQty + remainingQty, filledQty⟩
  | _ => True

instance (lives : Lives) : ∀ record, Decidable (DoneReports lives record)
  | .orderDone .. => inferInstanceAs (Decidable (_ = _))
  | .orderAccepted _ | .fill _ | .orderInserted .. | .orderCancelled .. | .orderFailed ..
  | .bbo .. | .configApplied .. => .isTrue trivial

def livesStep (book : Orderbook) (lives : Lives) (record : Record) : Option Lives :=
  some (recordLives book lives record)

structure Tracked where
  engine : Engine
  lives : Lives := fun _ => none

namespace Tracked

def step (s : Tracked) (a : Action) : Option Tracked :=
  (s.engine.step a).map fun e =>
    { engine := e, lives := (newRecords s.engine e).foldl (recordLives s.engine.book) s.lives }

/-- Every `ORDER_DONE` an action writes reports the account of its order. -/
def DonesReport (s : Tracked) (a : Action) : Prop :=
  ∀ e ∈ s.engine.step a, Along (livesStep s.engine.book) DoneReports s.lives (newRecords s.engine e)
  deriving Decidable

end Tracked

def restingKey (o : Resting) : OrderKey :=
  (o.userId, o.orderIdHi, o.orderIdLo)

/-- A new order has an id that no resting order has, and every order resting against it came to rest
with all that it was accepted for; a cancelled order has no fills. -/
def Tracked.Whole (s : Tracked) : Action → Prop
  | .order msg _ _ => s.engine.dedup.seen msg.key = false →
      ∀ h < s.engine.book.orders.capacity, ∀ o ∈ s.engine.book.held h,
        restingKey o ≠ msg.key ∧ (meets (toIncoming msg) o = true →
          ∀ life ∈ s.lives (restingKey o), o.originalQty = life.accepted)
  | .cancel request _ => s.engine.orderIndex request.key = none ∨
      ∀ life ∈ s.lives request.key, life.filled = 0
  | _ => True

instance (s : Tracked) : ∀ a, Decidable (s.Whole a)
  | .order .. => inferInstanceAs (Decidable (_ → ∀ h < _, ∀ o ∈ _, _ ∧ (_ → ∀ life ∈ _, _)))
  | .cancel .. => inferInstanceAs (Decidable (_ ∨ ∀ life ∈ _, _))
  | .maintainUsers .. | .cleanup .. | .applyConfig .. => .isTrue trivial

def Tracked.Legal (s : Tracked) (a : Action) : Prop :=
  s.engine.Legal a
  deriving Decidable

section Fills

variable {lives : Lives} {held : Nat → Option Resting} {order : IncomingOrder}
  {fill : Entry × Int} {fills : List (Entry × Int)} {key : OrderKey} {filled : Int}
  {tsNs : Nat} {b b' book : Orderbook}

theorem addFill_self {life : Life} (h : lives key = some life) (qty : Int) :
    lives.addFill key qty key = some { life with filled := life.filled + qty } := by
  rw [Lives.addFill, update_self, h]
  rfl

theorem addFill_of_ne {key' : OrderKey} (h : key' ≠ key) (qty : Int) :
    lives.addFill key qty key' = lives key' :=
  update_of_ne h _ _

/-- Every resting order has an account, under its own id. -/
structure Accounted (lives : Lives) (held : Nat → Option Resting) : Prop where
  life : ∀ h o, held h = some o → ∃ filled, lives (restingKey o) =
    some ⟨filled + o.remainingQty, filled⟩
  unique : ∀ h h' o o', held h = some o → held h' = some o' → restingKey o = restingKey o' → h = h'

/-- The accounts while `order`, of which `filled` is filled, goes through the book. -/
structure InFlight (order : IncomingOrder) (lives : Lives) (held : Nat → Option Resting)
    (filled : Int) : Prop extends Accounted lives held where
  taker : lives (restingKey order.resting) = some ⟨order.remainingQty, filled⟩
  fresh : ∀ h o, held h = some o → restingKey o ≠ restingKey order.resting
  whole : ∀ h o, held h = some o → meets order o = true → ∀ life ∈ lives (restingKey o),
    o.originalQty = life.accepted

def fillLives (order : IncomingOrder) (lives : Lives) (fill : Entry × Int) : Lives :=
  (lives.addFill (restingKey order.resting) fill.2).addFill (restingKey fill.1.order) fill.2

def fillEventLives (order : IncomingOrder) (lives : Lives) (fill : Entry × Int) : Lives :=
  if fill.1.order.remainingQty = fill.2 then
    update (fillLives order lives fill) (restingKey fill.1.order) none
  else fillLives order lives fill

namespace InFlight

variable (hm : InFlight order lives held filled)
  (hheld : held fill.1.handle = some fill.1.order)

include hm hheld

theorem fillLives_taker : fillLives order lives fill (restingKey order.resting) =
      some ⟨order.remainingQty, filled + fill.2⟩ := by
  rw [fillLives, addFill_of_ne (hm.fresh _ _ hheld).symm, addFill_self hm.taker]

theorem fillLives_maker {f : Int}
    (hlife : lives (restingKey fill.1.order) = some ⟨f + fill.1.order.remainingQty, f⟩) :
    fillLives order lives fill (restingKey fill.1.order) =
      some ⟨f + fill.1.order.remainingQty, f + fill.2⟩ := by
  have hbefore : lives.addFill (restingKey order.resting) fill.2 (restingKey fill.1.order) =
      some ⟨f + fill.1.order.remainingQty, f⟩ := by
    rw [addFill_of_ne (hm.fresh _ _ hheld), hlife]
  rw [fillLives, addFill_self hbefore]

omit hm hheld in
theorem fillEventLives_of_ne (hmaker : key ≠ restingKey fill.1.order)
    (htaker : key ≠ restingKey order.resting) :
    fillEventLives order lives fill key = lives key := by
  have hsame : fillLives order lives fill key = lives key := by
    rw [fillLives, addFill_of_ne hmaker, addFill_of_ne htaker]
  unfold fillEventLives
  split_ifs
  · rw [update_of_ne hmaker, hsame]
  · exact hsame

theorem makerReports (hmeets : meets order fill.1.order = true)
    (hfull : fill.1.order.remainingQty = fill.2) :
    fillLives order lives fill (restingKey fill.1.order) =
      some ⟨fill.1.order.originalQty + 0, fill.1.order.originalQty⟩ := by
  obtain ⟨_, hlife⟩ := hm.life _ _ hheld
  have hwhole := hm.whole _ _ hheld hmeets _ hlife
  rw [hm.fillLives_maker hheld hlife, hwhole, ← hfull, Int.add_zero]

theorem life_fill {h : Nat} {o : Resting} (ho : fillHeld held fill h = some o) :
    (∃ o₀ qty, held h = some o₀ ∧ o = setQty o₀ qty) ∧
      ∃ filled accepted, fillEventLives order lives fill (restingKey o) = some ⟨accepted, filled⟩ ∧
        accepted = filled + o.remainingQty ∧
        ∀ life ∈ fillEventLives order lives fill (restingKey o),
          ∃ life₀ ∈ lives (restingKey o), life.accepted = life₀.accepted := by
  refine ⟨fillHeld_some hheld ho, ?_⟩
  by_cases hh : h = fill.1.handle
  · subst hh
    rw [fillHeld, update_self] at ho
    split_ifs at ho with hfull
    cases ho
    obtain ⟨f, hlife⟩ := hm.life _ _ hheld
    have hkey : ∀ x, restingKey (setQty fill.1.order x) = restingKey fill.1.order := fun _ => rfl
    have hnew : fillEventLives order lives fill (restingKey fill.1.order) =
        some ⟨f + fill.1.order.remainingQty, f + fill.2⟩ := by
      rw [fillEventLives, if_neg hfull, hm.fillLives_maker hheld hlife]
    rw [hkey, hnew]
    refine ⟨_, _, rfl, ?_, ?_⟩
    · show f + fill.1.order.remainingQty = f + fill.2 + (fill.1.order.remainingQty - fill.2)
      omega
    · rintro life ⟨⟩
      exact ⟨_, hlife, rfl⟩
  · rw [fillHeld, update_of_ne hh] at ho
    obtain ⟨f, hlife⟩ := hm.life _ _ ho
    have hmaker : restingKey o ≠ restingKey fill.1.order := fun heq =>
      hh (hm.unique _ _ _ _ ho hheld heq)
    rw [fillEventLives_of_ne hmaker (hm.fresh _ _ ho), hlife]
    exact ⟨f, _, rfl, rfl, fun life hmem => ⟨life, hmem, rfl⟩⟩

theorem oneFill : InFlight order (fillEventLives order lives fill) (fillHeld held fill)
    (filled + fill.2) where
  life := by
    intro h o ho
    obtain ⟨-, f, _, hlife, rfl, -⟩ := hm.life_fill hheld ho
    exact ⟨f, hlife⟩
  unique := by
    intro h h' o o' ho ho' hkey
    obtain ⟨o₀, x, hold, rfl⟩ := fillHeld_some hheld ho
    obtain ⟨o₀', _, hold', rfl⟩ := fillHeld_some hheld ho'
    exact hm.unique h h' o₀ o₀' hold hold' hkey
  taker := by
    have htaker := hm.fillLives_taker hheld
    unfold fillEventLives
    split_ifs
    · rw [update_of_ne (hm.fresh _ _ hheld).symm, htaker]
    · exact htaker
  fresh := by
    intro h o ho
    obtain ⟨o₀, x, hold, rfl⟩ := fillHeld_some hheld ho
    exact hm.fresh h o₀ hold
  whole := by
    intro h o ho hmeets life hmem
    obtain ⟨⟨o₀, _, hold, rfl⟩, -, -, -, -, hsame⟩ := hm.life_fill hheld ho
    obtain ⟨life₀, hlife₀, heq⟩ := hsame life hmem
    rw [heq]
    exact hm.whole h o₀ hold hmeets life₀ hlife₀

end InFlight

theorem livesStep_eq : livesStep book = fun lives record => some (recordLives book lives record) :=
  rfl

theorem InFlight.fillRecords (hm : InFlight order lives held filled) (b book : Orderbook)
    (tsNs : Nat) (hheld : held fill.1.handle = some fill.1.order)
    (hmeets : meets order fill.1.order = true) :
    let records := (fillEvents order fill).map (eventRecord b tsNs)
    Along (livesStep book) DoneReports lives records ∧
      records.foldl (recordLives book) lives = fillEventLives order lives fill := by
  intro records
  by_cases hfull : fill.1.order.remainingQty = fill.2
  · have hrecords : records = [eventRecord b tsNs (fillEvent order fill),
        eventRecord b tsNs (filledEvent fill.1)] := by
      show (fillEvents order fill).map _ = _
      rw [fillEvents, if_pos hfull]
      rfl
    rw [hrecords]
    refine ⟨⟨trivial, fun lives' hlives' => ⟨?_, fun _ _ => trivial⟩⟩, ?_⟩
    · obtain rfl := some.inj hlives'
      exact hm.makerReports hheld hmeets hfull
    · rw [fillEventLives, if_pos hfull]
      rfl
  · have hrecords : records = [eventRecord b tsNs (fillEvent order fill)] := by
      show (fillEvents order fill).map _ = _
      rw [fillEvents, if_neg hfull]
      rfl
    rw [hrecords]
    refine ⟨⟨trivial, fun _ _ => trivial⟩, ?_⟩
    rw [fillEventLives, if_neg hfull]
    rfl

theorem InFlight.fillsRecords (hm : InFlight order lives held filled) (b book : Orderbook)
    (tsNs : Nat) (hd : Drawn held fills) (hcrosses : ∀ fill ∈ fills, order.crosses fill.1) :
    let records := (fills.flatMap (fillEvents order)).map (eventRecord b tsNs)
    Along (livesStep book) DoneReports lives records ∧
      InFlight order (records.foldl (recordLives book) lives) (fills.foldl fillHeld held)
        (filled + filledQty fills) := by
  induction fills generalizing lives held filled with
  | nil => exact ⟨trivial, by simpa using hm⟩
  | cons fill fills ih =>
    obtain ⟨hheld, -, -, -, hrest⟩ := hd
    obtain ⟨halong, hlives⟩ := hm.fillRecords b book tsNs hheld
      (hcrosses fill (mem_cons_self ..))
    obtain ⟨hafter, hm'⟩ := ih (hm.oneFill hheld) hrest fun f hf =>
      hcrosses f (mem_cons_of_mem _ hf)
    simp only [flatMap_cons, map_append, foldl_append, foldl_cons, filledQty_cons, ← Int.add_assoc]
    refine ⟨halong.append fun lives' hlives' => ?_, hlives ▸ hm'⟩
    rw [livesStep_eq, run_total] at hlives'
    obtain rfl := some.inj hlives'
    rw [hlives]
    exact hafter

theorem bboRecords {bbo : Option Bbo} (lives : Lives) :
    let records := (bbo.toList.map Bbo.event).map (eventRecord b tsNs)
    Along (livesStep book) DoneReports lives records ∧
      records.foldl (recordLives book) lives = lives := by
  cases bbo with
  | none => exact ⟨trivial, rfl⟩
  | some => exact ⟨⟨trivial, fun _ _ => trivial⟩, rfl⟩

theorem InFlight.ended {handle : Nat} {ending : Ending} (hm : InFlight order lives held filled)
    (bbo : Option Bbo) (b book : Orderbook) (tsNs : Nat)
    (haccounts : ending.Accounts order filled) :
    let records := (endEvent order handle ending :: bbo.toList.map Bbo.event).map
      (eventRecord b tsNs)
    Along (livesStep book) DoneReports lives records ∧
      Accounted (records.foldl (recordLives book) lives) (endHeld order handle held ending) := by
  refine ⟨⟨?_, fun lives' _ => (bboRecords lives').1⟩, ?_⟩
  · cases ending with
    | done =>
      obtain ⟨rfl, hsum, -⟩ := haccounts
      exact hm.taker.trans (by rw [hsum])
    | inserted | failed => exact trivial
  · show Accounted (List.foldl _ (recordLives book lives _) _) _
    rw [(bboRecords _).2]
    cases ending with
    | done =>
      refine ⟨fun h o ho => ?_, hm.unique⟩
      obtain ⟨f, hlife⟩ := hm.life h o ho
      refine ⟨f, ?_⟩
      rw [← hlife]
      exact update_of_ne (hm.fresh h o ho) _ _
    | failed => exact hm.toAccounted
    | inserted qty =>
      obtain ⟨-, hsum⟩ := haccounts
      have hcases : ∀ h o, update held handle
          (some (order.setRemaining qty).resting) h = some o →
            h = handle ∧ o = (order.setRemaining qty).resting ∨ held h = some o := by
        intro h o ho
        by_cases hh : h = handle
        · rw [hh, update_self] at ho
          exact .inl ⟨hh, (some.inj ho).symm⟩
        · rw [update_of_ne hh] at ho
          exact .inr ho
      refine ⟨fun h o ho => ?_, fun h h' o o' ho ho' hkey => ?_⟩
      · rcases hcases h o ho with ⟨-, rfl⟩ | hold
        · exact ⟨filled, hm.taker.trans (by rw [← hsum]; rfl)⟩
        · exact hm.life h o hold
      · rcases hcases h o ho with ⟨rfl, rfl⟩ | hold <;>
          rcases hcases h' o' ho' with ⟨rfl, rfl⟩ | hold'
        · rfl
        · exact absurd hkey.symm (hm.fresh h' o' hold')
        · exact absurd hkey (hm.fresh h o hold)
        · exact hm.unique h h' o o' hold hold' hkey

end Fills

/-! ## Runs -/

section Runs

variable {s s' : Tracked} {e : Engine} {b b' : Orderbook} {msg : OrderMessage}
  {acceptNs publishNs : Nat} {request : CancelRequest}

structure Tracked.Sound (s : Tracked) : Prop where
  healthy : s.engine.Healthy
  accounted : Accounted s.lives s.engine.book.held

theorem effectiveOrder_stamped (b : Orderbook) (order : IncomingOrder) (tsNs : Nat) :
    b.effectiveOrder (order.stamped tsNs) = (b.effectiveOrder order).stamped tsNs := by
  rw [effectiveOrder, clampReduceOnly_stamped, effectiveOrder]
  cases b.clampReduceOnly order <;> rfl

theorem Tracked.Sound.order (hs : s.Sound)
    (hlegal : s.engine.book.exchange.totalQty + msg.qty ≤ i64Max)
    (hwhole : ∀ h < s.engine.book.orders.capacity, ∀ o ∈ s.engine.book.held h,
      restingKey o ≠ msg.key ∧ (meets (toIncoming msg) o = true →
        ∀ life ∈ s.lives (restingKey o), o.originalQty = life.accepted))
    (hprocess : s.engine.book.processNewOrder (toIncoming msg) = some b) :
    let records := Record.orderAccepted (msg.accepted acceptNs) ::
      b.eventBuf.map (eventRecord b publishNs)
    Along (livesStep s.engine.book) DoneReports s.lives records ∧
      Accounted (records.foldl (recordLives s.engine.book) s.lives) b.held := by
  intro records
  obtain ⟨_, _, hk⟩ := hs.healthy.kept
  obtain ⟨-, -, effective, fills, handle, ending, bbo, hr, hcase⟩ :=
    processNewOrder_recorded hk hs.healthy.totalQty_le hlegal hprocess
  have hlt : ∀ {h o}, s.engine.book.held h = some o → h < s.engine.book.orders.capacity :=
    fun ho => hk.queued.held_lt (by rw [ho]; simp)
  set lives := recordLives s.engine.book s.lives (.orderAccepted (msg.accepted acceptNs))
    with hlives
  have hself : lives msg.key =
      some ⟨(s.engine.book.effectiveOrder (toIncoming msg)).remainingQty, 0⟩ := by
    show update s.lives msg.key _ msg.key = _
    rw [update_self, toIncoming_accepted, effectiveOrder_stamped]
    rfl
  have hother : ∀ key, key ≠ msg.key → lives key = s.lives key := fun key hne =>
    update_of_ne hne _ _
  have haccounted : Accounted lives s.engine.book.held := by
    refine ⟨fun h o ho => ?_, hs.accounted.unique⟩
    rw [hother _ (hwhole h (hlt ho) o ho).1]
    exact hs.accounted.life h o ho
  rcases hcase with ha | ⟨rfl, rfl, reason, rfl⟩
  · obtain ⟨heq, hpos, -⟩ := ha.eq_setRemaining
    have hkey : restingKey effective.resting = msg.key := by
      rw [heq]
      rfl
    have hmeets : ∀ o, meets effective o = meets (toIncoming msg) o := by
      intro o
      rw [heq]
      rfl
    have hm : InFlight effective lives s.engine.book.held 0 :=
      { haccounted with
        taker := by
          rw [hkey, hself, ha.effectiveOrder]
        fresh := fun h o ho => by
          rw [hkey]
          exact (hwhole h (hlt ho) o ho).1
        whole := fun h o ho hm life hmem => by
          rw [hmeets] at hm
          rw [hother _ (hwhole h (hlt ho) o ho).1] at hmem
          exact (hwhole h (hlt ho) o ho).2 hm life hmem }
    obtain ⟨halong, hm'⟩ := hm.fillsRecords b s.engine.book publishNs hr.drawn hr.crosses
    rw [Int.zero_add] at hm'
    obtain ⟨hend, haccounted'⟩ := hm'.ended bbo b s.engine.book publishNs
      (hr.accounts hpos.le)
    have hrecords : records = .orderAccepted (msg.accepted acceptNs) ::
        ((fills.flatMap (fillEvents effective)).map (eventRecord b publishNs) ++
          (endEvent effective handle ending :: bbo.toList.map Bbo.event).map
            (eventRecord b publishNs)) := by
      rw [← map_append, ← hr.events]
    rw [hrecords]
    refine ⟨⟨trivial, fun lives' hlives' => ?_⟩, ?_⟩
    · obtain rfl := some.inj hlives'
      refine halong.append fun lives' hlives' => ?_
      rw [livesStep_eq, run_total] at hlives'
      obtain rfl := some.inj hlives'
      exact hend
    · rw [foldl_cons, foldl_append, hr.held]
      exact haccounted'
  · have hrecords : records = .orderAccepted (msg.accepted acceptNs) ::
        eventRecord b publishNs (endEvent (toIncoming msg) handle (.failed reason)) ::
          (bbo.toList.map Bbo.event).map (eventRecord b publishNs) := by
      exact congrArg (fun events => _ :: events.map (eventRecord b publishNs)) hr.events
    rw [hrecords]
    refine ⟨⟨trivial, fun _ _ => ⟨trivial, fun lives' _ => (bboRecords lives').1⟩⟩, ?_⟩
    have hfold : List.foldl (recordLives s.engine.book) s.lives
        (.orderAccepted (msg.accepted acceptNs) ::
          eventRecord b publishNs (endEvent (toIncoming msg) handle (.failed reason)) ::
            (bbo.toList.map Bbo.event).map (eventRecord b publishNs)) = lives :=
      (bboRecords lives).2
    rw [hfold, hr.held]
    exact haccounted

theorem Tracked.Sound.cancelled (hs : s.Sound) {found : Nat}
    (hindex : s.engine.orderIndex request.key = some found)
    (hmatches : s.engine.book.orderMatches found request.userId request.orderIdHi
      request.orderIdLo = true)
    (hwhole : s.engine.orderIndex request.key = none ∨
      ∀ life ∈ s.lives request.key, life.filled = 0) (bbo : Option Bbo) :
    let records := (cancelEvents request found (s.engine.book.slot found) bbo).map
      (eventRecord b publishNs)
    Along (livesStep s.engine.book) DoneReports s.lives records ∧
      Accounted (records.foldl (recordLives s.engine.book) s.lives)
        (update s.engine.book.held found none) := by
  obtain ⟨-, hactive, huser, hhi, hlo⟩ := of_decide_eq_true hmatches
  have hheld : s.engine.book.held found = some (s.engine.book.slot found).resting := held_eq hactive
  have hkey : restingKey (s.engine.book.slot found).resting = request.key := by
    show ((s.engine.book.orders.get found).userId, (s.engine.book.orders.get found).orderIdHi,
      (s.engine.book.orders.get found).orderIdLo) = _
    rw [huser, hhi, hlo]
    rfl
  obtain ⟨f, hlife⟩ := hs.accounted.life found _ hheld
  rw [hkey] at hlife
  obtain rfl : f = 0 := by
    rcases hwhole with hnone | hzero
    · rw [hnone] at hindex
      exact absurd hindex (by simp)
    · exact hzero _ hlife
  refine ⟨⟨trivial, fun _ h₁ => ⟨?_, fun lives' _ => (bboRecords lives').1⟩⟩, ?_⟩
  · cases h₁
    exact hlife
  · show Accounted (List.foldl _ (update s.lives request.key none) _) _
    rw [(bboRecords _).2]
    have hcases : ∀ h o, update s.engine.book.held found none h = some o →
        h ≠ found ∧ s.engine.book.held h = some o := by
      intro h o ho
      by_cases hh : h = found
      · rw [hh] at ho
        exact absurd ho (by simp)
      · rw [update_of_ne hh] at ho
        exact ⟨hh, ho⟩
    refine ⟨fun h o ho => ?_, fun h h' o o' ho ho' => ?_⟩
    · obtain ⟨hne, hold⟩ := hcases h o ho
      have hne' : restingKey o ≠ request.key := fun heq =>
        hne (hs.accounted.unique h found o _ hold hheld (heq.trans hkey.symm))
      rw [update_of_ne hne']
      exact hs.accounted.life h o hold
    · exact hs.accounted.unique h h' o o' (hcases h o ho).2 (hcases h' o' ho').2

theorem quietRecords {records : List Record}
    (hrecords : ∀ record ∈ records, DoneReports s.lives record ∧
      recordLives s.engine.book s.lives record = s.lives) :
    Along (livesStep s.engine.book) DoneReports s.lives records ∧
      records.foldl (recordLives s.engine.book) s.lives = s.lives := by
  induction records with
  | nil => exact ⟨trivial, rfl⟩
  | cons record records ih =>
    obtain ⟨hreports, hsame⟩ := hrecords record (mem_cons_self ..)
    obtain ⟨halong, hfold⟩ := ih fun r hr => hrecords r (mem_cons_of_mem _ hr)
    refine ⟨⟨hreports, fun lives' hlives' => ?_⟩, ?_⟩
    · obtain rfl := some.inj hlives'
      rw [hsame]
      exact halong
    · rw [foldl_cons, hsame, hfold]

theorem Tracked.Sound.action (hs : s.Sound) {a : Action} (hlegal : s.Legal a) (hwhole : s.Whole a)
    (hrun : s.engine.step a = some e) :
    Along (livesStep s.engine.book) DoneReports s.lives (newRecords s.engine e) ∧
      Accounted ((newRecords s.engine e).foldl (recordLives s.engine.book) s.lives)
        e.book.held := by
  obtain ⟨q, free, hk⟩ := hs.healthy.kept
  rcases step_cases hrun with ⟨msg, acceptNs, publishNs, b, b', rfl, hseen, hprocess,
    hrecenter, rfl⟩ |
    ⟨request, publishNs, found, bbo, rfl, hindex, hmatches, rfl⟩ | ⟨hheld, -, records,
      hwal, hnotices⟩
  · obtain ⟨⟨_, _, hk₁⟩, htotal₁, -⟩ :=
      processNewOrder_recorded hk hs.healthy.totalQty_le hlegal hprocess
    obtain ⟨_, _, hheld, -⟩ := maybeRecenter_kept hk₁ htotal₁ hrecenter
    have hnew : newRecords s.engine (s.engine.accepted msg acceptNs publishNs b b') =
        .orderAccepted (msg.accepted acceptNs) :: b.eventBuf.map (eventRecord b publishNs) :=
      newRecords_eq rfl
    rw [hnew]
    show _ ∧ Accounted _ b'.held
    rw [hheld]
    exact hs.order hlegal (hwhole hseen) hprocess
  · have hactive : (s.engine.book.slot found).active = true := (of_decide_eq_true hmatches).2.1
    have hk₀ : Kept (cleared s.engine.book) q free := hk.congr [] _
    obtain ⟨-, -, hheld, -⟩ := hk₀.cancelOrder hactive
    set events := cancelEvents request found (s.engine.book.slot found) bbo
    have hnew : newRecords s.engine (s.engine.cancelled publishNs found events) =
        events.map (eventRecord _ publishNs) := newRecords_eq rfl
    have hheld' : (s.engine.cancelled publishNs found events).book.held =
        update s.engine.book.held found none := hheld
    rw [hnew, hheld']
    exact hs.cancelled hindex hmatches hwhole bbo
  · obtain ⟨halong, hfold⟩ := quietRecords fun record hmem => by
      have hnotice := hnotices record hmem
      cases record <;> first | exact ⟨trivial, rfl⟩ | cases hnotice
    rw [newRecords_eq hwal, hfold, hheld]
    exact ⟨halong, hs.accounted⟩

theorem Tracked.Sound.step (hs : s.Sound) {a : Action} (hlegal : s.Legal a) (hwhole : s.Whole a)
    (hrun : s.step a = some s') : s'.Sound := by
  obtain ⟨_, hstep, rfl⟩ := map_eq_some_iff.1 hrun
  exact ⟨hs.healthy.step hlegal hstep, (hs.action hlegal hwhole hstep).2⟩

theorem Tracked.sound_new {config : BookConfig} {capacity : Nat} (hcap : capacity ≤ NONE) :
    Tracked.Sound { engine := Engine.new config capacity } where
  healthy := Engine.healthy_new hcap
  accounted := by
    have hnone : (Engine.new config capacity).book.held = fun _ => none := rfl
    rw [hnone]
    exact ⟨fun _ _ h => absurd h (by simp), fun _ _ _ _ h => absurd h (by simp)⟩

/-- **Reported fill totals.**  In a run in which a taker only meets orders that came to rest with
all they were accepted for, only orders without fills are cancelled and no id is accepted again
while its order rests, every `ORDER_DONE` is the first of its order since it was accepted, reports
the sum of its fills, and this and the rest add up to what it was accepted for. -/
theorem donesReport_of_run {config : BookConfig} {capacity : Nat} {actions : List Action}
    (hcap : capacity ≤ NONE)
    (hlegal : Along Tracked.step Tracked.Legal { engine := Engine.new config capacity } actions)
    (hwhole : Along Tracked.step Tracked.Whole { engine := Engine.new config capacity } actions) :
    Along Tracked.step Tracked.DonesReport { engine := Engine.new config capacity } actions :=
  Along.of_invariant (fun hs hok hstep => hs.step hok.1 hok.2 hstep)
    (fun hs hok _ hstep => (hs.action hok.1 hok.2 hstep).1) (Tracked.sound_new hcap)
    (hlegal.and hwhole)

/-- A maker filled in two parts, an order that expires and one that is cancelled untouched. -/
theorem donesReport_of_run_makers :
    Along Tracked.step Tracked.DonesReport { engine := Engine.new ⟨1, 1, 1⟩ 8 }
      [.limit 1 1 1 0 50100 5, .limit 2 2 0 0 50100 2,
        .order { OrderMessage.limit 3 3 0 0 50100 4 with tif := 1 } 0 0,
        .limit 1 4 1 0 50200 7, .cancel { userId := 1, orderIdLo := 4 } 0] :=
  donesReport_of_run (by decide) (by decide +kernel) (by decide +kernel)

/-- A buy of five fills three on entry and rests with two.  When the two are filled it reports a
total of two; when it is cancelled instead it reports a total of zero. -/
theorem donesReport_fails_partial : ∃ s e e', run Tracked.step { engine := Engine.new ⟨1, 1, 1⟩ 8 }
        [.limit 1 1 1 0 50100 3, .limit 2 2 0 0 50100 5] = some s ∧
      s.lives (2, 0, 2) = some ⟨5, 3⟩ ∧
      s.engine.step (.limit 3 3 1 0 50100 2) = some e ∧
      .orderDone 0 2 0 2 2 0 0 false .gtc 0 ∈ newRecords s.engine e ∧
      ¬ s.DonesReport (.limit 3 3 1 0 50100 2) ∧
      s.engine.step (.cancel { userId := 2, orderIdLo := 2 } 0) = some e' ∧
      .orderDone 0 2 0 2 0 2 2 false .gtc 0 ∈ newRecords s.engine e' ∧
      ¬ s.DonesReport (.cancel { userId := 2, orderIdLo := 2 } 0) := by
  simp only [exists_and_left]
  decide +kernel

end Runs

end Rsx.Matching
