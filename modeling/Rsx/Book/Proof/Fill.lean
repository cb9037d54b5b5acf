import Rsx.Book.Matching
import Rsx.Book.Resting
import Rsx.Book.Proof.Links

/-!
# Filling one level

`fill_level` walks a queue and consumes it, as `consumeIf` does on the list of its entries.
-/

namespace Rsx.Book

open Function LinkedList Buckets PriceTime List OrderSlot

theorem OrderSlot.resting_of_data {s s' : OrderSlot} (h : s'.data = s.data) :
    s'.resting = s.resting :=
  (congrArg resting h :)

namespace Orderbook

variable {b b' : Orderbook} {q q' : Nat → List Nat} {free l₁ l₂ : List Nat} {t h : Nat}
  {taker : IncomingOrder}
  {fills fills' : List (Entry × Int)} {b₁ b₂ b₃ : Orderbook} {f r : Int} {x k : Nat}
  {e : Entry}

def entry (b : Orderbook) (h : Nat) : Entry :=
  ⟨h, (b.slot h).resting⟩

def view (b : Orderbook) (q : Nat → List Nat) (t : Nat) : List Entry :=
  (q t).map b.entry

/-- A book at rest: the queues hold exactly the active orders, each with a positive quantity. -/
structure Queued (b : Orderbook) (q : Nat → List Nat) (free : List Nat) : Prop where
  repr : Repr b q [] free
  active : ∀ h, (b.slot h).active = true ↔ ∃ t, h ∈ q t
  pos : ∀ t, ∀ h ∈ q t, 0 < (b.slot h).remainingQty

def fillEvent (taker : IncomingOrder) (fill : Entry × Int) : Event :=
  let maker := fill.1.order
  .fill fill.1.handle maker.tif maker.reduceOnly maker.userId taker.userId maker.price fill.2
    taker.side maker.orderIdHi maker.orderIdLo taker.orderIdHi taker.orderIdLo taker.timestampNs

def filledEvent (maker : Entry) : Event :=
  .orderDone maker.handle maker.order.tif maker.order.reduceOnly maker.order.userId .filled
    maker.order.originalQty 0 maker.order.orderIdHi maker.order.orderIdLo

/-- The events of one fill: the maker's `OrderDone` follows when nothing of it remains. -/
def fillEvents (taker : IncomingOrder) (fill : Entry × Int) : List Event :=
  fillEvent taker fill ::
    if fill.1.order.remainingQty = fill.2 then [filledEvent fill.1] else []

def fillUsers (taker : IncomingOrder) (users : UserRegistry) (fill : Entry × Int) : UserRegistry :=
  let maker := fill.1.order
  let users := users.applyFill taker.userId maker.userId taker.side fill.2
  if maker.remainingQty = fill.2 then users.removeOrder maker.userId else users

def held (b : Orderbook) (h : Nat) : Option Resting :=
  if (b.slot h).active then some (b.slot h).resting else none

def fillHeld (held : Nat → Option Resting) (fill : Entry × Int) : Nat → Option Resting :=
  let maker := fill.1.order
  update held fill.1.handle
    (if maker.remainingQty = fill.2 then none
    else some (HasQty.setQty maker (maker.remainingQty - fill.2)))

/-- Fills that can be made one after the other: each takes a part of the order then resting under
its handle. -/
def Drawn (held : Nat → Option Resting) : List (Entry × Int) → Prop
  | [] => True
  | fill :: fills =>
    held fill.1.handle = some fill.1.order ∧ fill.1.handle ≠ NONE ∧ 0 < fill.2 ∧
      fill.2 ≤ fill.1.order.remainingQty ∧ Drawn (fillHeld held fill) fills

theorem Drawn.append {held : Nat → Option Resting}
    (h : Drawn held fills) (h' : Drawn (fills.foldl fillHeld held) fills') :
    Drawn held (fills ++ fills') := by
  induction fills generalizing held with
  | nil => exact h'
  | cons fill fills ih =>
    obtain ⟨hheld, hne, hpos, hle, hrest⟩ := h
    exact ⟨hheld, hne, hpos, hle, ih hrest h'⟩

structure Frame (b b' : Orderbook) : Prop where
  compression : b'.compression = b.compression
  priceAsc : b'.priceAsc = b.priceAsc
  config : b'.config = b.config
  state : b'.state = b.state
  oldLevels : b'.oldLevels = b.oldLevels
  oldCompression : b'.oldCompression = b.oldCompression
  capacity : b'.orders.capacity = b.orders.capacity

theorem Frame.refl (b : Orderbook) : Frame b b :=
  ⟨rfl, rfl, rfl, rfl, rfl, rfl, rfl⟩

theorem Frame.trans (h : Frame b₁ b₂) (h' : Frame b₂ b₃) : Frame b₁ b₃ :=
  ⟨h'.1.trans h.1, h'.2.trans h.2, h'.3.trans h.3, h'.4.trans h.4, h'.5.trans h.5, h'.6.trans h.6,
    h'.7.trans h.7⟩

theorem Frame.setUsers (h : Frame b₁ b₂) (users : UserRegistry) :
    Frame b₁ { b₂ with users := users } :=
  ⟨h.1, h.2, h.3, h.4, h.5, h.6, h.7⟩

theorem Frame.setEvents (h : Frame b₁ b₂) (events events' : List Event) :
    Frame { b₁ with eventBuf := events } { b₂ with eventBuf := events' } :=
  ⟨h.1, h.2, h.3, h.4, h.5, h.6, h.7⟩

/-- Everything a sequence of fills changes outside the queues and the best prices. -/
structure Traded (taker : IncomingOrder) (b : Orderbook) (fills : List (Entry × Int))
    (b' : Orderbook) : Prop where
  frame : Frame b b'
  events : b'.eventBuf = b.eventBuf ++ fills.flatMap (fillEvents taker)
  users : b'.users = fills.foldl (fillUsers taker) b.users
  drawn : Drawn b.held fills
  held : b'.held = fills.foldl fillHeld b.held

theorem Traded.nil (taker : IncomingOrder) (b : Orderbook) : Traded taker b [] b :=
  ⟨Frame.refl b, by simp, rfl, trivial, rfl⟩

theorem Traded.trans (h : Traded taker b₁ fills b₂) (h' : Traded taker b₂ fills' b₃) :
    Traded taker b₁ (fills ++ fills') b₃ where
  frame := h.frame.trans h'.frame
  events := by rw [h'.events, h.events]; simp
  users := by rw [h'.users, h.users, foldl_append]
  drawn := h.drawn.append (h.held ▸ h'.drawn)
  held := by rw [h'.held, h.held, foldl_append]

theorem Queued.drawn (hq : Queued b q free) (hmem : h ∈ q t) (hpos : 0 < f)
    (hle : f ≤ (b.slot h).remainingQty) : Drawn b.held [(b.entry h, f)] :=
  ⟨if_pos ((hq.active h).2 ⟨t, hmem⟩), hq.repr.ne_none hmem, hpos, hle, trivial⟩

structure Filled (taker : IncomingOrder) (b : Orderbook) (fills : List (Entry × Int))
    (b' : Orderbook) : Prop extends Traded taker b fills b' where
  bestTick : b'.bestTick = b.bestTick
  bestPx : b'.bestPx = b.bestPx

theorem Filled.nil (taker : IncomingOrder) (b : Orderbook) : Filled taker b [] b :=
  ⟨Traded.nil taker b, rfl, rfl⟩

theorem Filled.trans (h : Filled taker b₁ fills b₂) (h' : Filled taker b₂ fills' b₃) :
    Filled taker b₁ (fills ++ fills') b₃ :=
  ⟨h.toTraded.trans h'.toTraded, h'.bestTick.trans h.bestTick, h'.bestPx.trans h.bestPx⟩

theorem Queued.congr (hq : Queued b q free) (horders : b'.orders = b.orders)
    (hlevels : b'.activeLevels = b.activeLevels) (hocc : b'.occ = b.occ)
    (hcomp : b'.compression = b.compression) : Queued b' q free := by
  have hslot : b'.slot = b.slot := congrArg Slab.slots horders
  have hnext : b'.nextOf = b.nextOf := funext fun x => by rw [nextOf, nextOf, hslot]
  have hprev : b'.prevOf = b.prevOf := funext fun x => by rw [prevOf, prevOf, hslot]
  refine ⟨hq.repr.congr hlevels hocc hcomp ?_ ?_ ?_ hnext hprev ?_, ?_, ?_⟩
  · rw [horders]
  · rw [horders]
  · rw [horders]
  · intro u x _
    rw [hslot]
    exact ⟨rfl, rfl, rfl⟩
  · exact hslot ▸ hq.active
  · exact hslot ▸ hq.pos

theorem emit_eq {event : Event} (hroom : b.eventBuf.length < maxEvents) :
    b.emit event = some { b with eventBuf := b.eventBuf ++ [event] } :=
  if_pos hroom

def retire (b : Orderbook) (h : Nat) : Orderbook :=
  { b with orders := (b.orders.modify h fun slot => { slot with active := false }).free h }

theorem slot_retire (b : Orderbook) (h x : Nat) (hx : x ≠ h) : (b.retire h).slot x = b.slot x := by
  show update (update b.orders.slots h _) h _ x = b.orders.slots x
  rw [update_of_ne hx, update_of_ne hx]

theorem active_retire (b : Orderbook) (h : Nat) : ((b.retire h).slot h).active = false := by
  have hfree : (b.retire h).slot h = _ := update_self ..
  have hslot := slot_modifySlot b h (fun slot => { slot with active := false }) h
  rw [if_pos rfl] at hslot
  rw [hfree]
  exact (congrArg active hslot :)

theorem Repr.remove (hb : Repr b q [] free) (hq : q t = l₁ ++ h :: l₂)
    (hactive : ∀ x, (b.slot x).active = true ↔ ∃ u, x ∈ q u)
    (hpos : ∀ u, ∀ x ∈ q u, x ≠ h → 0 < (b.slot x).remainingQty) :
    Queued ((b.unlinkOrder h).retire h) (update q t (l₁ ++ l₂)) (h :: free) := by
  have hmem : h ∈ q t := by rw [hq]; simp
  have hnodup := hb.nodup_queue t
  rw [hq, nodup_middle, nodup_cons] at hnodup
  -- The queues lose `h` and nothing else.
  have hsplit : ∀ u x, x ∈ update q t (l₁ ++ l₂) u ↔ x ∈ q u ∧ x ≠ h := by
    intro u x
    by_cases hu : u = t
    · subst hu
      rw [update_self, hq]
      constructor
      · intro hx
        exact ⟨by simp at hx ⊢; tauto, fun heq => hnodup.1 (heq ▸ hx)⟩
      · rintro ⟨hx, hne⟩
        simp at hx ⊢
        tauto
    · rw [update_of_ne hu]
      exact ⟨fun hx => ⟨hx, fun heq => hu (hb.eq_of_mem (heq ▸ hx) hmem)⟩, And.left⟩
  have hfield : ∀ x, x ≠ h → (((b.unlinkOrder h).retire h).slot x).active = (b.slot x).active ∧
      (((b.unlinkOrder h).retire h).slot x).remainingQty = (b.slot x).remainingQty := by
    intro x hx
    rw [slot_retire _ _ _ hx]
    have := fields_of_data (data_unlinkOrder b h x)
    exact ⟨this.2.2.2.1, this.2.2.1⟩
  refine ⟨((hb.unlinkOrder hq).modifySlot_loose _).release, ?_, ?_⟩
  · intro x
    simp only [hsplit, exists_and_right]
    by_cases hx : x = h
    · rw [hx, active_retire]
      simp
    · rw [(hfield x hx).1, hactive x]
      simp [hx]
  · intro u x hx
    obtain ⟨hx, hne⟩ := (hsplit u x).1 hx
    rw [(hfield x hne).2]
    exact hpos u x hx hne

theorem entry_remove (b : Orderbook) (hx : x ≠ h) :
    ((b.unlinkOrder h).retire h).entry x = b.entry x := by
  unfold entry
  rw [slot_retire _ _ _ hx, resting_of_data (data_unlinkOrder b h x)]

def reduced (b : Orderbook) (t h : Nat) (qty : Int) : Orderbook :=
  (b.modifySlot h fun slot =>
      { slot with remainingQty := (b.slot h).remainingQty - qty }).setLevel t
    { b.activeLevels t with totalQty := sat64 ((b.activeLevels t).totalQty - qty) }

theorem slot_reduced (b : Orderbook) (t h : Nat) (qty : Int) (x : Nat) :
    (b.reduced t h qty).slot x =
      if x = h then { b.slot h with remainingQty := (b.slot h).remainingQty - qty }
      else b.slot x :=
  slot_modifySlot b h (fun slot => { slot with remainingQty := (b.slot h).remainingQty - qty }) x

theorem held_congr (h : (b'.slot x).data = (b.slot x).data) : b'.held x = b.held x := by
  unfold held
  rw [(fields_of_data h).2.2.2.1, resting_of_data h]

theorem held_unlinkOrder (b : Orderbook) (h : Nat) : (b.unlinkOrder h).held = b.held :=
  funext fun x => held_congr (data_unlinkOrder b h x)

theorem held_retire (b : Orderbook) (h : Nat) : (b.retire h).held = update b.held h none := by
  funext x
  unfold held
  by_cases hx : x = h
  · rw [hx, update_self, active_retire]
    rfl
  · rw [update_of_ne hx, slot_retire b h x hx]

theorem held_reduced (f : Int) (hactive : (b.slot h).active = true) :
    (b.reduced t h f).held = update b.held h
      (some (HasQty.setQty (b.slot h).resting ((b.slot h).remainingQty - f))) := by
  funext x
  unfold held
  by_cases hx : x = h
  · rw [hx, update_self, slot_reduced, if_pos rfl]
    exact if_pos hactive
  · rw [update_of_ne hx, slot_reduced, if_neg hx]

theorem Queued.reduced (hq : Queued b q free) (hmem : h ∈ q t) (hf : 0 ≤ f)
    (hlt : f < (b.slot h).remainingQty) : Queued (b.reduced t h f) q free := by
  refine ⟨hq.repr.reduceQty hmem hf hlt.le, fun x => ?_, fun u x hx => ?_⟩
  · rw [← hq.active x, slot_reduced]
    split_ifs with hx
    · rw [hx]
    · rfl
  · rw [slot_reduced]
    split_ifs with hxh
    · show 0 < (b.slot h).remainingQty - f
      omega
    · exact hq.pos u x hx

theorem fillMaker_eq (hf : min r (b.slot h).remainingQty = f) :
    b.fillMaker t h (taker.setRemaining r) =
      ((b.reduced t h f).emit (fillEvent taker (b.entry h, f))).bind fun b₁ =>
        let maker := b.entry h
        let b₂ := { b₁ with
          users := b₁.users.applyFill taker.userId maker.order.userId taker.side f }
        if (b.slot h).remainingQty - f = 0 then
          ((b₂.unlinkOrder h).emit (filledEvent maker)).bind fun b₃ =>
            some ({ b₃.retire h with users := b₃.users.removeOrder maker.order.userId },
              taker.setRemaining (r - f))
        else
          some (b₂, taker.setRemaining (r - f)) := by
  subst hf
  rfl

theorem fillMaker_partial (taker : IncomingOrder) (hq : Queued b q free) (hmem : h ∈ q t)
    (hr : 0 < r) (hroom : b.eventBuf.length + 2 ≤ maxEvents)
    (hlt : r < (b.slot h).remainingQty) :
    ∃ b', b.fillMaker t h (taker.setRemaining r) = some (b', taker.setRemaining 0) ∧
      Queued b' q free ∧
      (∀ x, b'.entry x =
        if x = h then HasQty.setQty (b.entry h) ((b.slot h).remainingQty - r) else b.entry x) ∧
      Filled taker b [(b.entry h, r)] b' := by
  have hleft : (b.slot h).remainingQty - r ≠ 0 := by omega
  have hne : (b.entry h).order.remainingQty ≠ r := by
    show (b.slot h).remainingQty ≠ r
    omega
  have hslot := slot_reduced b t h r
  have hemit : (b.reduced t h r).emit (fillEvent taker (b.entry h, r)) = _ :=
    emit_eq (show b.eventBuf.length < maxEvents by omega)
  rw [fillMaker_eq (min_eq_left hlt.le), hemit, Option.bind_some, if_neg hleft, sub_self]
  refine ⟨_, rfl, (hq.reduced hmem hr.le hlt).congr rfl rfl rfl rfl, ?_, ?_⟩
  · intro x
    show Entry.mk x ((b.reduced t h r).slot x).resting = _
    rw [hslot]
    split_ifs with hx
    · subst hx
      rfl
    · rfl
  · refine ⟨⟨⟨rfl, rfl, rfl, rfl, rfl, rfl, rfl⟩, ?_, ?_, hq.drawn hmem hr hlt.le, ?_⟩, rfl, rfl⟩
    · simp [fillEvents, hne, reduced, setLevel, modifySlot]
    · simp only [foldl_cons, foldl_nil, fillUsers, if_neg hne]
      rfl
    · have hheld := held_reduced (t := t) r ((hq.active h).2 ⟨t, hmem⟩)
      simp only [foldl_cons, foldl_nil, fillHeld, if_neg hne]
      exact hheld

theorem fillMaker_full (taker : IncomingOrder) (hq : Queued b q free)
    (hsplit : q t = l₁ ++ h :: l₂) (hroom : b.eventBuf.length + 2 ≤ maxEvents)
    (hle : (b.slot h).remainingQty ≤ r) :
    ∃ b', b.fillMaker t h (taker.setRemaining r) =
        some (b', taker.setRemaining (r - (b.slot h).remainingQty)) ∧
      Queued b' (update q t (l₁ ++ l₂)) (h :: free) ∧
      (∀ x, x ≠ h → b'.entry x = b.entry x) ∧
      Filled taker b [(b.entry h, (b.slot h).remainingQty)] b' := by
  set f := (b.slot h).remainingQty with hf
  have hmem : h ∈ q t := by rw [hsplit]; simp
  have hrepr := hq.repr.reduceQty hmem (hq.pos t h hmem).le (le_refl f)
  have hslot := slot_reduced b t h f
  have hemit : (b.reduced t h f).emit (fillEvent taker (b.entry h, f)) = _ :=
    emit_eq (show b.eventBuf.length < maxEvents by omega)
  let b₂ : Orderbook := { b.reduced t h f with
    eventBuf := b.eventBuf ++ [fillEvent taker (b.entry h, f)]
    users := b.users.applyFill taker.userId (b.entry h).order.userId taker.side f }
  have hroom₂ : (b₂.unlinkOrder h).eventBuf.length < maxEvents := by
    show (b.eventBuf ++ [_]).length < maxEvents
    rw [length_append, length_singleton]
    omega
  let b₃ : Orderbook := { b₂.unlinkOrder h with
    eventBuf := b₂.eventBuf ++ [filledEvent (b.entry h)] }
  have hemit₂ : (b₂.unlinkOrder h).emit (filledEvent (b.entry h)) = some b₃ := emit_eq hroom₂
  have hres : b.fillMaker t h (taker.setRemaining r) =
      some ({ b₃.retire h with users := b₂.users.removeOrder (b.entry h).order.userId },
        taker.setRemaining (r - f)) := by
    rw [fillMaker_eq (min_eq_right hle), hemit]
    refine (if_pos (sub_self f)).trans ?_
    exact (congrArg (Option.bind · _) hemit₂).trans rfl
  have hslot₂ : ∀ x, x ≠ h → b₂.slot x = b.slot x := fun x hx => by
    show (b.reduced t h f).slot x = b.slot x
    rw [hslot, if_neg hx]
  have hrepr₂ : Repr b₂ q [] free :=
    hrepr.congr rfl rfl rfl rfl rfl rfl rfl rfl fun _ _ _ => ⟨rfl, rfl, rfl⟩
  have hactive₂ : ∀ x, (b₂.slot x).active = true ↔ ∃ u, x ∈ q u := by
    intro x
    rw [← hq.active x]
    show ((b.reduced t h f).slot x).active = true ↔ _
    rw [hslot]
    split_ifs with hx
    · rw [hx]
    · rfl
  have hpos₂ : ∀ u, ∀ x ∈ q u, x ≠ h → 0 < (b₂.slot x).remainingQty := by
    intro u x hx hne
    rw [hslot₂ x hne]
    exact hq.pos u x hx
  have hremove := hrepr₂.remove hsplit hactive₂ hpos₂
  refine ⟨_, hres, hremove.congr rfl rfl rfl rfl, ?_, ?_⟩
  · intro x hx
    refine (entry_remove b₂ hx).trans ?_
    rw [entry, entry, hslot₂ x hx]
  · refine ⟨⟨⟨rfl, rfl, rfl, rfl, rfl, rfl, (slab_unlinkOrder b₂ h).2.2⟩, ?_, ?_,
      hq.drawn hmem (hq.pos t h hmem) le_rfl, ?_⟩, rfl, rfl⟩
    · show (b.eventBuf ++ [fillEvent taker (b.entry h, f)]) ++ [filledEvent (b.entry h)] = _
      simp only [flatMap_cons, flatMap_nil, append_nil, fillEvents]
      rw [if_pos (show (b.entry h).order.remainingQty = f from rfl), append_assoc]
      rfl
    · simp only [foldl_cons, foldl_nil, fillUsers]
      rw [if_pos (show (b.entry h).order.remainingQty = f from rfl)]
    · have hheld : (b₃.retire h).held = update (b₂.unlinkOrder h).held h none :=
        held_retire b₃ h
      have hheld₂ : b₂.held = _ := held_reduced (t := t) f ((hq.active h).2 ⟨t, hmem⟩)
      simp only [foldl_cons, foldl_nil, fillHeld]
      rw [if_pos (show (b.entry h).order.remainingQty = f from rfl)]
      refine hheld.trans ?_
      rw [held_unlinkOrder, hheld₂, update_idem]
      rfl

theorem Repr.view_remove (hb : Repr b q [] free) (hsplit : q t = l₁ ++ h :: l₂)
    (hentry : ∀ x, x ≠ h → b'.entry x = b.entry x) :
    b'.view (update q t (l₁ ++ l₂)) = update (b.view q) t (l₁.map b.entry ++ l₂.map b.entry) := by
  have hmem : h ∈ q t := by rw [hsplit]; simp
  have hnodup := hb.nodup_queue t
  rw [hsplit, nodup_middle, nodup_cons] at hnodup
  funext u
  unfold view
  by_cases hu : u = t
  · subst hu
    rw [update_self, update_self, ← map_append]
    exact map_congr_left fun x hx => hentry x fun heq => hnodup.1 (heq ▸ hx)
  · rw [update_of_ne hu, update_of_ne hu]
    exact map_congr_left fun x hx => hentry x fun heq => hu (hb.eq_of_mem (heq ▸ hx) hmem)

theorem Repr.view_reduce (hb : Repr b q [] free) (hsplit : q t = l₁ ++ h :: l₂)
    (hentry : ∀ x, b'.entry x = if x = h then e else b.entry x) :
    b'.view q = update (b.view q) t (l₁.map b.entry ++ e :: l₂.map b.entry) := by
  have hmem : h ∈ q t := by rw [hsplit]; simp
  have hnodup := hb.nodup_queue t
  rw [hsplit, nodup_middle, nodup_cons, mem_append, not_or] at hnodup
  have hsame : ∀ l : List Nat, h ∉ l → l.map b'.entry = l.map b.entry := fun l hl =>
    map_congr_left fun x hx => by
      rw [hentry, if_neg (fun heq : x = h => hl (heq ▸ hx))]
  funext u
  unfold view
  by_cases hu : u = t
  · subst hu
    rw [update_self, hsplit, map_append, map_cons, hsame l₁ hnodup.1.1,
      hsame l₂ hnodup.1.2, hentry, if_pos rfl]
  · rw [update_of_ne hu]
    exact hsame _ fun hx => hu (hb.eq_of_mem hx hmem)

def selects (side : Side) (limit : Int) (e : Entry) : Bool :=
  isCrossing e.order.side e.order.price side limit

def Room (b : Orderbook) (k : Nat) : Prop :=
  k ≤ maxMakersPerOrder ∧ b.eventBuf.length = 2 * (maxMakersPerOrder - k)

theorem Room.isBudgetSpent (h : b.Room k) : b.isBudgetSpent = decide (k = 0) := by
  unfold Room at h
  unfold Orderbook.isBudgetSpent
  rw [decide_eq_decide]
  omega

theorem Room.lt (h : b.Room k) : b.eventBuf.length + 2 ≤ maxEvents := by
  unfold Room maxMakersPerOrder maxEvents at h
  unfold maxEvents
  omega

theorem Room.filled (h : b.Room (k + 1))
    (hf : Filled taker b [(e, e.order.remainingQty)] b') : b'.Room k := by
  unfold Room at h ⊢
  have hlen : b'.eventBuf.length = b.eventBuf.length + 2 := by simp [hf.events, fillEvents]
  omega

/-- What filling one level gives: the outcome `o` of consuming its queue behind `front`. -/
structure LevelFilled (taker : IncomingOrder) (b : Orderbook) (q : Nat → List Nat) (t : Nat)
    (front : List Entry) (o : Outcome Entry) (b' : Orderbook) : Prop where
  queued : ∃ q' free', Queued b' q' free' ∧ b'.view q' = update (b.view q) t (front ++ o.rest)
  filled : Filled taker b o.fills b'
  room : 0 < o.left → b'.Room o.budget

theorem fillLevelLoop_spec {limit : Int} {fuel : Nat} {l : List Nat} (hq : Queued b q free)
    (hsplit : q t = l₁ ++ l) (hfuel : l.length < fuel) (hroom : b.Room k) :
    let o := consumeIf (selects taker.side limit) k r (l.map b.entry)
    ∃ b', fillLevelLoop fuel b t (taker.setRemaining r) limit (l.headD NONE) =
        some (b', taker.setRemaining o.left) ∧
      LevelFilled taker b q t (l₁.map b.entry) o b' := by
  intro o
  -- Nothing more happens once the loop's condition fails.
  have hstop : ∀ {fuel : Nat} {cursor : Nat} {b : Orderbook} {r : Int}, 0 < fuel →
      ¬ (cursor ≠ NONE ∧ 0 < r ∧ ¬ b.isBudgetSpent) →
      fillLevelLoop fuel b t (taker.setRemaining r) limit cursor =
        some (b, taker.setRemaining r) := by
    intro fuel cursor b r hfuel hcond
    obtain ⟨fuel, rfl⟩ := Nat.exists_eq_succ_of_ne_zero hfuel.ne'
    exact if_neg hcond
  induction l generalizing b q free k r fuel l₁ with
  | nil =>
    refine ⟨b, hstop (by omega) (by simp), ⟨q, free, hq, ?_⟩, Filled.nil _ _, fun _ => hroom⟩
    rw [append_nil] at hsplit
    simp only [o, map_nil, consumeIf, append_nil, ← hsplit]
    exact (update_eq_self t (b.view q)).symm
  | cons h l ih =>
    have hmem : h ∈ q t := by rw [hsplit]; simp
    have hview : b.view q t = l₁.map b.entry ++ b.entry h :: l.map b.entry := by
      rw [view, hsplit, map_append, map_cons]
    by_cases hspent : k = 0 ∨ r ≤ 0
    · have ho : o = _ := consumeIf_of_spent hspent
      rw [ho]
      refine ⟨b, hstop (by omega) ?_, ⟨q, free, hq, ?_⟩, Filled.nil _ _, fun _ => hroom⟩
      · rw [hroom.isBudgetSpent]
        simp only [decide_eq_true_eq]
        omega
      · rw [map_cons, ← hview]
        exact (update_eq_self t (b.view q)).symm
    have hnext : (b.orders.get h).next = l.headD NONE := by
      have hpath := (hq.repr.level t).path
      rw [hsplit] at hpath
      exact next_eq_headD hpath
    obtain ⟨fuel, rfl⟩ := Nat.exists_eq_succ_of_ne_zero (by omega : fuel ≠ 0)
    rw [length_cons] at hfuel
    have hcond : h ≠ NONE ∧ 0 < r ∧ ¬ b.isBudgetSpent := by
      refine ⟨hq.repr.ne_none hmem, by omega, ?_⟩
      rw [hroom.isBudgetSpent, decide_eq_true_eq]
      omega
    have hloop : fillLevelLoop (fuel + 1) b t (taker.setRemaining r) limit h =
        if selects taker.side limit (b.entry h) then
          (b.fillMaker t h (taker.setRemaining r)).bind fun x =>
            fillLevelLoop fuel x.1 t x.2 limit (l.headD NONE)
        else fillLevelLoop fuel b t (taker.setRemaining r) limit (l.headD NONE) := by
      rw [← hnext]
      exact if_pos hcond
    have ho : o = _ := consumeIf.eq_2 ..
    rw [if_neg hspent] at ho
    rw [headD_cons, hloop]
    by_cases hcross : selects taker.side limit (b.entry h)
    · rw [if_pos hcross] at ho ⊢
      by_cases hfull : (b.slot h).remainingQty ≤ r
      · -- The maker leaves the book and the walk goes on.
        obtain ⟨b₁, hmaker, hq₁, hentry, hfilled⟩ :=
          fillMaker_full taker hq hsplit hroom.lt hfull
        have hview₁ := hq.repr.view_remove hsplit hentry
        obtain ⟨k, rfl⟩ := Nat.exists_eq_succ_of_ne_zero (by omega : k ≠ 0)
        have hsplit₁ : update q t (l₁ ++ l) t = l₁ ++ l := update_self ..
        have hmap := congrFun hview₁ t
        rw [view, hsplit₁, update_self, map_append] at hmap
        obtain ⟨hmap₁, hmap₂⟩ := append_inj hmap (by simp)
        have hlt : l.length < fuel := by omega
        obtain ⟨b', hrun, ⟨q', free', hq', hview'⟩, hfilled', hroom'⟩ :=
          ih (r := r - (b.slot h).remainingQty) hq₁ hsplit₁ hlt (hroom.filled hfilled)
        rw [hmap₂] at hrun hview' hfilled' hroom'
        rw [hmap₁, hview₁, update_idem] at hview'
        have ho : o = _ := ho.trans (if_pos hfull)
        rw [ho, hmaker]
        exact ⟨b', hrun, ⟨q', free', hq', hview'⟩, hfilled.trans hfilled', hroom'⟩
      · -- The maker outlasts the taker.
        obtain ⟨b₁, hmaker, hq₁, hentry, hfilled⟩ :=
          fillMaker_partial taker hq hmem (by omega) hroom.lt (not_le.1 hfull)
        have ho : o = _ := ho.trans (if_neg hfull)
        rw [ho, hmaker]
        refine ⟨b₁, hstop (by omega) (by simp), ⟨q, free, hq₁, ?_⟩, hfilled,
          fun hpos => absurd hpos (lt_irrefl 0)⟩
        exact hq.repr.view_reduce hsplit hentry
    · -- The maker is not selected and stays.
      rw [if_neg hcross] at ho ⊢
      have hsplit' : q t = (l₁ ++ [h]) ++ l := by simpa using hsplit
      have hlt : l.length < fuel := by omega
      obtain ⟨b', hrun, ⟨q', free', hq', hview'⟩, hfilled', hroom'⟩ :=
        ih (r := r) hq hsplit' hlt hroom
      rw [ho]
      refine ⟨b', hrun, ⟨q', free', hq', ?_⟩, hfilled', hroom'⟩
      rw [hview']
      simp

/-- **`fill_level` consumes the queue of its slot in list order.** -/
theorem fillLevel_spec (taker : IncomingOrder) (t : Nat) (limit r : Int)
    (hq : Queued b q free) (hroom : b.Room k) :
    let o := consumeIf (selects taker.side limit) k r (b.view q t)
    ∃ b', b.fillLevel t (taker.setRemaining r) limit = some (b', taker.setRemaining o.left) ∧
      LevelFilled taker b q t [] o b' := by
  unfold fillLevel
  rw [(hq.repr.level t).head]
  exact fillLevelLoop_spec hq (nil_append (q t)).symm
    (Nat.lt_succ_of_le (hq.repr.length_le_capacity t)) hroom

end Orderbook

end Rsx.Book
