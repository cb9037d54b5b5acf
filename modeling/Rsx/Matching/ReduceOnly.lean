import Rsx.Matching.Step

/-!
# Reduce-only orders

The clamp at entry bounds what a reduce-only order may do as a taker.  A rest of it keeps its
quantity while its owner goes on trading, so as a maker it reduces the position only if what its
owner has resting against the taker is still covered by it.
-/

namespace Rsx.Matching

open Book Orderbook PriceTime HasQty UserRegistry

def Reduces (net net' : Int) : Prop :=
  0 ≤ net' ∧ net' < net ∨ net < net' ∧ net' ≤ 0

def eventUsers (users : UserRegistry) : Event → UserRegistry
  | .fill _ _ _ makerUserId takerUserId _ qty side _ _ _ _ _ =>
    users.applyFill takerUserId makerUserId side qty
  | .orderInserted _ userId _ _ _ _ _ => users.addOrder userId
  | .orderDone handle _ _ userId _ _ _ _ _ =>
    if handle = NONE then users else users.removeOrder userId
  | _ => users

def registryStep (users : UserRegistry) (event : Event) : Option UserRegistry :=
  some (eventUsers users event)

/-- A fill between two users reduces the position of each whose order is reduce-only. -/
def FillReduces (takerReduceOnly : Bool) (users : UserRegistry) : Event → Prop
  | .fill _ _ makerReduceOnly makerUserId takerUserId _ qty side _ _ _ _ _ =>
    let users' := users.applyFill takerUserId makerUserId side qty
    makerUserId ≠ takerUserId →
      (makerReduceOnly = true → Reduces (users.netOf makerUserId) (users'.netOf makerUserId)) ∧
      (takerReduceOnly = true → Reduces (users.netOf takerUserId) (users'.netOf takerUserId))
  | _ => True

/-- The events of an order that goes through the book account for the registry, and every fill
among them reduces what it has to. -/
def Engine.FillsReduce (e : Engine) : Action → Prop
  | .order msg _ _ => e.dedup.seen msg.key = false →
      ∀ b, e.book.processNewOrder (toIncoming msg) = some b →
        run registryStep e.book.users b.eventBuf = some b.users ∧
          Along registryStep (FillReduces (toIncoming msg).reduceOnly) e.book.users b.eventBuf
  | _ => True

/-- Whether a resting order is on the other side and within the limit. -/
def meets (order : IncomingOrder) (o : Resting) : Bool :=
  isCrossing o.side o.price order.side order.price

/-- The quantity a user has resting against an order, under the handles below `n`. -/
def exposure (n : Nat) (held : Nat → Option Resting) (order : IncomingOrder) (u : Nat) : Int :=
  heldQty n held fun o => o.userId = u && meets order o

/-- Whoever has a reduce-only order resting against this order has a position that covers all that
rests of them against it. -/
def Covers (order : IncomingOrder) (n : Nat) (users : UserRegistry) (held : Nat → Option Resting) :
    Prop :=
  ∀ h < n, ∀ o ∈ held h, o.reduceOnly = true → meets order o = true → o.userId ≠ order.userId →
    exposure n held order o.userId ≤ signedQty order.side (users.netOf o.userId)

instance (order : IncomingOrder) (n : Nat) (users : UserRegistry) (held : Nat → Option Resting) :
    Decidable (Covers order n users held) :=
  inferInstanceAs (Decidable (∀ h < n, ∀ o ∈ held h, _ → _ → _ → _))

def Engine.Covered (e : Engine) : Action → Prop
  | .order msg _ _ => Covers (toIncoming msg) e.book.orders.capacity e.book.users e.book.held
  | _ => True

instance (e : Engine) : ∀ a, Decidable (e.Covered a)
  | .order .. => inferInstanceAs (Decidable (Covers ..))
  | .cancel .. | .maintainUsers .. | .cleanup .. | .applyConfig .. => .isTrue trivial

variable {n : Nat} {users : UserRegistry} {held : Nat → Option Resting} {order : IncomingOrder}
  {fill : Entry × Int} {fills : List (Entry × Int)} {net qty : Int} {side : Side} {bbo : Option Bbo}
  {ending : Ending}

/-! ## One fill -/

theorem sat64_of_reduces {net' : Int} (hrange : i64Min ≤ net ∧ net ≤ i64Max)
    (h : Reduces net net') : sat64 net' = net' := by
  have hmin : i64Min ≤ 0 := by decide
  have hmax : 0 ≤ i64Max := by decide
  rcases h with h | h
  · exact sat64_of_mem (by omega) (by omega)
  · exact sat64_of_mem (by omega) (by omega)

theorem reduces_maker (hpos : 0 < qty) (hle : qty ≤ signedQty side net) :
    Reduces net (net - signedQty side qty) := by
  cases side with
  | buy =>
    simp only [signedQty] at hle ⊢
    exact .inl ⟨by omega, by omega⟩
  | sell =>
    simp only [signedQty] at hle ⊢
    exact .inr ⟨by omega, by omega⟩

theorem reduces_taker (hpos : 0 < qty) (hle : qty ≤ -signedQty side net) :
    Reduces net (net + signedQty side qty) := by
  cases side with
  | buy =>
    simp only [signedQty] at hle ⊢
    exact .inr ⟨by omega, by omega⟩
  | sell =>
    simp only [signedQty] at hle ⊢
    exact .inl ⟨by omega, by omega⟩

theorem signedQty_sub (side : Side) (x y : Int) :
    signedQty side (x - signedQty side y) = signedQty side x - y := by
  cases side with
  | buy => rfl
  | sell =>
    simp only [signedQty]
    omega

theorem signedQty_add (side : Side) (x y : Int) :
    signedQty side (x + signedQty side y) = signedQty side x + y := by
  cases side with
  | buy => rfl
  | sell =>
    simp only [signedQty]
    omega

/-- One fill among those of an order, and what holds before it. -/
structure Filling (order : IncomingOrder) (n : Nat) (users : UserRegistry)
    (held : Nat → Option Resting) (fill : Entry × Int) : Prop where
  tallied : Tallied n users held
  pos : ∀ h o, held h = some o → 0 < o.remainingQty
  covers : Covers order n users held
  held : held fill.1.handle = some fill.1.order
  qty_pos : 0 < fill.2
  qty_le : fill.2 ≤ fill.1.order.remainingQty
  meets : meets order fill.1.order = true

namespace Filling

variable (hf : Filling order n users held fill)

include hf

theorem handle_lt : fill.1.handle < n :=
  hf.tallied.bound _ (by rw [hf.held]; simp)

theorem exposure_eq (u : Nat) :
    exposure n (fillHeld held fill) order u + (if fill.1.order.userId = u then fill.2 else 0) =
      exposure n held order u := by
  have hstep := heldQty_fillHeld (c := fun o => o.userId = u && Matching.meets order o)
    (fun _ _ => rfl) hf.handle_lt hf.held
  unfold exposure
  rw [← hstep]
  simp [hf.meets]

theorem qty_le_exposure : fill.2 ≤ exposure n held order fill.1.order.userId := by
  have hstep := hf.exposure_eq fill.1.order.userId
  have hrest : 0 ≤ exposure n (fillHeld held fill) order fill.1.order.userId :=
    heldQty_nonneg (fillHeld_pos hf.pos hf.qty_le) _ _
  omega

theorem netOf_maker (hne : fill.1.order.userId ≠ order.userId)
    (hcovered : fill.2 ≤ signedQty order.side (users.netOf fill.1.order.userId)) :
    let users' := users.applyFill order.userId fill.1.order.userId order.side fill.2
    users'.netOf fill.1.order.userId =
        users.netOf fill.1.order.userId - signedQty order.side fill.2 ∧
      Reduces (users.netOf fill.1.order.userId) (users'.netOf fill.1.order.userId) := by
  intro users'
  have hreduces := reduces_maker hf.qty_pos hcovered
  have hnet : users'.netOf fill.1.order.userId =
      users.netOf fill.1.order.userId - signedQty order.side fill.2 := by
    rw [hf.tallied.consistent.netOf_applyFill, if_pos rfl, if_neg hne]
    exact sat64_of_reduces (hf.tallied.ranged _) hreduces
  exact ⟨hnet, hnet ▸ hreduces⟩

theorem netOf_taker (hne : fill.1.order.userId ≠ order.userId)
    (hclamped : fill.2 ≤ -signedQty order.side (users.netOf order.userId)) :
    let users' := users.applyFill order.userId fill.1.order.userId order.side fill.2
    users'.netOf order.userId = users.netOf order.userId + signedQty order.side fill.2 ∧
      Reduces (users.netOf order.userId) (users'.netOf order.userId) := by
  intro users'
  have hreduces := reduces_taker hf.qty_pos hclamped
  have hnet : users'.netOf order.userId =
      users.netOf order.userId + signedQty order.side fill.2 := by
    rw [hf.tallied.consistent.netOf_applyFill, if_neg hne.symm, if_pos rfl]
    exact sat64_of_reduces (hf.tallied.ranged _) hreduces
  exact ⟨hnet, hnet ▸ hreduces⟩

theorem netOf_self (heq : fill.1.order.userId = order.userId)
    (hclamped : fill.2 ≤ -signedQty order.side (users.netOf order.userId)) :
    (users.applyFill order.userId fill.1.order.userId order.side fill.2).netOf order.userId =
      users.netOf order.userId := by
  have hreduces := reduces_taker hf.qty_pos hclamped
  have hrange := hf.tallied.ranged order.userId
  rw [hf.tallied.consistent.netOf_applyFill, if_pos heq.symm, if_pos heq,
    sat64_of_reduces hrange hreduces, Int.add_sub_cancel]
  exact sat64_of_mem hrange.1 hrange.2

theorem covers_fill : Covers order n (fillUsers order users fill) (fillHeld held fill) := by
  intro h hh o ho hreduce hmeets hne
  obtain ⟨o₀, _, hheld, rfl⟩ := fillHeld_some hf.held ho
  have hbound := hf.covers h hh o₀ hheld hreduce hmeets hne
  have hexposure := hf.exposure_eq o₀.userId
  rw [hf.tallied.netOf_fillUsers]
  show exposure n (fillHeld held fill) order o₀.userId ≤ signedQty order.side
    ((users.applyFill order.userId fill.1.order.userId order.side fill.2).netOf o₀.userId)
  have hne' : o₀.userId ≠ order.userId := hne
  by_cases hmaker : fill.1.order.userId = o₀.userId
  · have hqty := hf.qty_le_exposure
    rw [hmaker] at hqty
    have hnet := (hf.netOf_maker (hmaker ▸ hne') (by rw [hmaker]; omega)).1
    rw [hmaker] at hnet
    rw [hmaker, hnet, signedQty_sub]
    omega
  · rw [hf.tallied.consistent.netOf_applyFill, if_neg (Ne.symm hmaker), if_neg hne']
    omega

theorem fillReduces (hclamped : order.reduceOnly = true →
      fill.2 ≤ -signedQty order.side (users.netOf order.userId)) :
    FillReduces order.reduceOnly users (fillEvent order fill) := by
  intro hne
  constructor
  · intro hreduce
    have hbound := hf.covers _ hf.handle_lt _ hf.held hreduce hf.meets hne
    exact (hf.netOf_maker hne (hf.qty_le_exposure.trans hbound)).2
  · intro hreduce
    exact (hf.netOf_taker hne (hclamped hreduce)).2

theorem clamp_left {left : Int} (hleft : 0 ≤ left)
    (hclamped : fill.2 + left ≤ -signedQty order.side (users.netOf order.userId)) :
    left ≤ -signedQty order.side ((fillUsers order users fill).netOf order.userId) := by
  rw [hf.tallied.netOf_fillUsers]
  have hpos := hf.qty_pos
  by_cases heq : fill.1.order.userId = order.userId
  · rw [hf.netOf_self heq (by omega)]
    omega
  · rw [(hf.netOf_taker heq (by omega)).1, signedQty_add]
    omega

end Filling

/-! ## All events of an order -/

theorem run_fillEvents (hne : fill.1.handle ≠ NONE) :
    run registryStep users (fillEvents order fill) = some (fillUsers order users fill) := by
  unfold fillEvents fillUsers
  by_cases hfull : fill.1.order.remainingQty = fill.2
  · simp [run, registryStep, fillEvent, filledEvent, eventUsers, hne, hfull]
  · simp [run, registryStep, fillEvent, eventUsers, hfull]

theorem run_flatMap_fillEvents (hd : Drawn held fills) : run registryStep users
      (fills.flatMap (fillEvents order)) = some (fills.foldl (fillUsers order) users) := by
  induction fills generalizing users held with
  | nil => rfl
  | cons fill fills ih =>
    obtain ⟨-, hne, -, -, hrest⟩ := hd
    rw [List.flatMap_cons, run_append, run_fillEvents hne]
    exact ih hrest

theorem fillsReduce_of_drawn (hd : Drawn held fills) (ht : Tallied n users held)
    (hpos : ∀ h o, held h = some o → 0 < o.remainingQty) (hcovers : Covers order n users held)
    (hcrosses : ∀ fill ∈ fills, order.crosses fill.1)
    (hclamped : order.reduceOnly = true →
      filledQty fills ≤ -signedQty order.side (users.netOf order.userId)) :
    Along registryStep (FillReduces order.reduceOnly) users
      (fills.flatMap (fillEvents order)) := by
  induction fills generalizing users held with
  | nil => exact trivial
  | cons fill fills ih =>
    obtain ⟨hheld, hne, hqty, hle, hrest⟩ := hd
    have hf : Filling order n users held fill :=
      ⟨ht, hpos, hcovers, hheld, hqty, hle, hcrosses fill (List.mem_cons_self ..)⟩
    have hleft := hrest.filledQty_nonneg
    simp only [filledQty_cons] at hclamped
    refine Along.append ?_ ?_
    · have hfirst := hf.fillReduces fun h => by have := hclamped h; omega
      unfold fillEvents
      split_ifs
      · exact ⟨hfirst, fun _ _ => ⟨trivial, fun _ _ => trivial⟩⟩
      · exact ⟨hfirst, fun _ _ => trivial⟩
    · intro users' hrun
      obtain rfl := Option.some.inj ((run_fillEvents hne).symm.trans hrun)
      exact ih hrest (ht.oneFill order hheld) (fillHeld_pos hpos hle) hf.covers_fill
        (fun f h => hcrosses f (List.mem_cons_of_mem _ h))
        fun h => hf.clamp_left hleft (hclamped h)

theorem along_endEvent {handle : Nat} {ro : Bool} (users : UserRegistry) :
    Along registryStep (FillReduces ro) users
      (endEvent order handle ending :: bbo.toList.map Bbo.event) := by
  refine ⟨?_, fun users' _ => ?_⟩
  · cases ending <;> exact trivial
  · cases bbo with
    | none => exact trivial
    | some => exact ⟨trivial, fun _ _ => trivial⟩

theorem run_endEvent {handle : Nat} (users : UserRegistry) : run registryStep users
      (endEvent order handle ending :: bbo.toList.map Bbo.event) =
        some (endUsers order users ending) := by
  cases ending <;> cases bbo <;> rfl

theorem clamp_le {b : Orderbook} {clamped : IncomingOrder} (ha : Accepted b order clamped)
    (hreduce : order.reduceOnly = true) :
    clamped.remainingQty ≤ -signedQty order.side (b.users.netOf order.userId) := by
  have hclamp := ha.clamp
  unfold clampReduceOnly at hclamp
  rw [if_pos hreduce] at hclamp
  rw [netOf_eq]
  cases hnet : b.users.netQty order.userId with
  | none => simp [hnet] at hclamp
  | some net =>
    simp only [hnet] at hclamp
    split_ifs at hclamp with hreject
    cases hclamp
    cases hside : order.side with
    | buy | sell =>
      simp only [hside, decide_eq_true_eq, not_le] at hreject
      simp only [signedQty, Option.getD_some]
      omega

theorem Engine.Healthy.fillsReduce {e : Engine} (h : Engine.Healthy e) {a : Action}
    (hlegal : e.Legal a) (hcovered : e.Covered a) : e.FillsReduce a := by
  cases a with
  | order msg =>
    intro _ b hprocess
    obtain ⟨_, _, hk⟩ := h.kept
    obtain ⟨-, -, effective, fills, _, _, _, hr, hcase⟩ :=
      processNewOrder_recorded hk h.totalQty_le hlegal hprocess
    have hrun : run registryStep e.book.users (fills.flatMap (fillEvents effective)) = _ :=
      run_flatMap_fillEvents hr.drawn
    refine ⟨?_, ?_⟩
    · rw [hr.events, run_append, hrun, Option.bind_some, run_endEvent, hr.users]
    · rw [hr.events]
      refine Along.append ?_ fun users' _ => along_endEvent users'
      rcases hcase with ha | ⟨-, rfl, -⟩
      · obtain ⟨heq, hpos, -⟩ := ha.eq_setRemaining
        have hcovers : Covers effective e.book.orders.capacity e.book.users e.book.held := by
          rw [heq]
          exact hcovered
        have hreduceOnly : effective.reduceOnly = (toIncoming msg).reduceOnly := by
          rw [heq]
          rfl
        have hclamped : effective.reduceOnly = true → filledQty fills ≤
            -signedQty effective.side (e.book.users.netOf effective.userId) := by
          intro hreduce
          have hclamp := clamp_le ha (hreduceOnly ▸ hreduce)
          rw [heq]
          exact (hr.bounded hpos.le).trans hclamp
        rw [← hreduceOnly]
        exact fillsReduce_of_drawn hr.drawn hk.tallied hk.queued.held_pos hcovers hr.crosses
          hclamped
      · exact trivial
  | cancel | maintainUsers | cleanup | applyConfig => exact trivial

/-- **Reduce-only orders.**  In a run whose actions all find the reduce-only orders they meet
covered by the positions of their owners, every fill reduces the position of each party whose order
is reduce-only. -/
theorem fillsReduce_of_run {config : BookConfig} {capacity : Nat} {actions : List Action}
    (hcap : capacity ≤ NONE)
    (hlegal : Along Engine.step Engine.Legal (Engine.new config capacity) actions)
    (hcovered : Along Engine.step Engine.Covered (Engine.new config capacity) actions) :
    Along Engine.step Engine.FillsReduce (Engine.new config capacity) actions :=
  Along.of_invariant (fun h hok hstep => h.step hok.1 hstep)
    (fun h hok => h.fillsReduce hok.1 hok.2) (Engine.healthy_new hcap) (hlegal.and hcovered)

/-- A position of five, a reduce-only order that rests against it, and a taker that fills three. -/
theorem fillsReduce_of_run_covered : Along Engine.step Engine.FillsReduce (Engine.new ⟨1, 1, 1⟩ 8)
      [.limit 2 1 1 0 50000 5, .limit 1 2 0 0 50000 5,
        .limit 1 3 1 1 50100 5, .limit 2 4 0 0 50100 3] :=
  fillsReduce_of_run (by decide) (by decide +kernel) (by decide +kernel)

/-- The position is sold before the taker arrives: the reduce-only order that still rests opens a
short position. -/
theorem fillsReduce_fails_sold : ∃ e b rest, run Engine.step (Engine.new ⟨1, 1, 1⟩ 8)
        [.limit 2 1 1 0 50000 5, .limit 1 2 0 0 50000 5,
          .limit 1 3 1 1 50100 5, .limit 2 4 0 0 49900 5,
          .limit 1 5 1 0 49900 5] = some e ∧
      e.book.processNewOrder (toIncoming (OrderMessage.limit 2 6 0 0 50100 5)) = some b ∧
      b.eventBuf = .fill 0 .gtc true 1 2 50100 5 .buy 0 3 0 6 0 :: rest ∧
      e.book.users.netOf 1 = 0 ∧ b.users.netOf 1 = -5 ∧
      ¬ e.FillsReduce (.limit 2 6 0 0 50100 5) := by
  have hstart : ∃ e ∈ run Engine.step (Engine.new ⟨1, 1, 1⟩ 8)
      [.limit 2 1 1 0 50000 5, .limit 1 2 0 0 50000 5,
        .limit 1 3 1 1 50100 5, .limit 2 4 0 0 49900 5, .limit 1 5 1 0 49900 5],
      ∃ b ∈ e.book.processNewOrder (toIncoming (OrderMessage.limit 2 6 0 0 50100 5)),
        e.dedup.seen (OrderMessage.limit 2 6 0 0 50100 5).key = false ∧
        b.eventBuf.head? = some (.fill 0 .gtc true 1 2 50100 5 .buy 0 3 0 6 0) ∧
        e.book.users.netOf 1 = 0 ∧ (e.book.users.applyFill 2 1 .buy 5).netOf 1 = -5 ∧
        b.users.netOf 1 = -5 := by
    decide +kernel
  obtain ⟨e, hrun, b, hprocess, hseen, hhead, hbefore, hafter, hbook⟩ := hstart
  obtain ⟨rest, hbuf⟩ := List.head?_eq_some_iff.1 hhead
  refine ⟨e, b, rest, hrun, hprocess, hbuf, hbefore, hbook, fun hreduce => ?_⟩
  have halong := (hreduce hseen b hprocess).2
  rw [hbuf] at halong
  have hmaker := (halong.1 (by decide)).1 rfl
  unfold Reduces at hmaker
  omega

end Rsx.Matching
