import Rsx.Book.Proof.Record
import Rsx.Book.Proof.Users

/-!
# The ledger of a book

The resting orders by handle and the user registry, as one state.  Fills, inserts and cancels act on
it alone, so the count of a user's orders can be followed without the lists of the book.
-/

namespace Rsx.Book.Orderbook

open Function PriceTime HasQty Buckets List

variable {b b' : Orderbook} {q : Nat → List Nat} {free : List Nat} {n h : Nat}
  {held : Nat → Option Resting} {users : UserRegistry} {o o' : Resting} {order : IncomingOrder}
  {fills : List (Entry × Int)} {bbo : Option Bbo} {ending : Ending} {free' : List Nat}
  {handle : Nat} {q' : Nat → List Nat}

def ownedBy (u : Nat) (o : Option Resting) : Bool :=
  o.any fun o => o.userId = u

def heldBy (n : Nat) (held : Nat → Option Resting) (u : Nat) : Nat :=
  (range n).countP fun h => ownedBy u (held h)

theorem heldBy_update (held : Nat → Option Resting) (hh : h < n) (v : Option Resting) (u : Nat) :
    heldBy n (update held h v) u + (if ownedBy u (held h) then 1 else 0) =
      heldBy n held u + if ownedBy u v then 1 else 0 := by
  have hchange := countP_range_change (fun x => ownedBy u (held x))
    (fun x => ownedBy u (update held h v x)) hh
    fun x hx => by rw [update_of_ne hx]
  rw [update_self] at hchange
  exact hchange

def heldQty (n : Nat) (held : Nat → Option Resting) (c : Resting → Bool) : Int :=
  ((range n).map fun h => ((held h).filter c).elim 0 Resting.remainingQty).sum

section HeldQty

variable {c : Resting → Bool}
  {fill : Entry × Int} {x : Nat}

theorem heldQty_update (held : Nat → Option Resting) (hh : h < n) (v : Option Resting)
    (c : Resting → Bool) :
    heldQty n (update held h v) c + ((held h).filter c).elim 0 Resting.remainingQty =
      heldQty n held c + (v.filter c).elim 0 Resting.remainingQty := by
  have hchange := sum_range_change
    (fun x => ((held x).filter c).elim 0 Resting.remainingQty)
    (fun x => ((update held h v x).filter c).elim 0 Resting.remainingQty) hh
    fun x hx => by rw [update_of_ne hx]
  rw [update_self] at hchange
  exact hchange

theorem heldQty_insert (hh : h < n) (hnone : held h = none) (o : Resting) (c : Resting → Bool) :
    heldQty n (update held h (some o)) c =
      heldQty n held c + if c o then o.remainingQty else 0 := by
  have hupdate := heldQty_update held hh (some o) c
  rw [hnone] at hupdate
  by_cases hc : c o <;> simpa [hc, Option.filter] using hupdate

theorem heldQty_remove (hh : h < n) (hheld : held h = some o) (c : Resting → Bool) :
    heldQty n (update held h none) c + (if c o then o.remainingQty else 0) = heldQty n held c := by
  have hupdate := heldQty_update held hh none c
  rw [hheld] at hupdate
  by_cases hc : c o <;> simpa [hc, Option.filter] using hupdate

theorem heldQty_fillHeld (hc : ∀ o x, c (setQty o x) = c o)
    (hh : fill.1.handle < n) (hheld : held fill.1.handle = some fill.1.order) :
    heldQty n (fillHeld held fill) c + (if c fill.1.order then fill.2 else 0) =
      heldQty n held c := by
  have hupdate := heldQty_update held hh
    (if fill.1.order.remainingQty = fill.2 then none
      else some (setQty fill.1.order (fill.1.order.remainingQty - fill.2))) c
  have hset : ∀ x, (setQty fill.1.order x).remainingQty = x := fun _ => rfl
  rw [hheld] at hupdate
  unfold fillHeld
  by_cases hfull : fill.1.order.remainingQty = fill.2
  · by_cases hco : c fill.1.order <;> simp [hco, hfull, Option.filter] at hupdate ⊢ <;> omega
  · by_cases hco : c fill.1.order <;>
      simp [hco, hfull, Option.filter, hc, hset] at hupdate ⊢ <;> omega

theorem fillHeld_ne_none (hheld : held fill.1.handle = some fill.1.order)
    (hx : fillHeld held fill x ≠ none) : held x ≠ none := by
  by_cases hxh : x = fill.1.handle
  · rw [hxh, hheld]
    simp
  · rwa [fillHeld, update_of_ne hxh] at hx

theorem fillHeld_some (hheld : held fill.1.handle = some fill.1.order)
    (hx : fillHeld held fill x = some o) : ∃ o₀ qty, held x = some o₀ ∧ o = setQty o₀ qty := by
  unfold fillHeld at hx
  by_cases hxh : x = fill.1.handle
  · subst hxh
    rw [update_self] at hx
    split_ifs at hx
    exact ⟨_, _, hheld, (Option.some.inj hx).symm⟩
  · rw [update_of_ne hxh] at hx
    exact ⟨o, o.remainingQty, hx, rfl⟩

theorem Drawn.forall_held {P : Resting → Prop} (hset : ∀ o x, P o → P (setQty o x))
    (hd : Drawn held fills) (hP : ∀ x o, held x = some o → P o) :
    ∀ x o, fills.foldl fillHeld held x = some o → P o := by
  induction fills generalizing held with
  | nil => exact hP
  | cons fill fills ih =>
    obtain ⟨hheld, -, -, -, hrest⟩ := hd
    refine ih hrest fun x o hx => ?_
    obtain ⟨o₀, qty, ho₀, rfl⟩ := fillHeld_some hheld hx
    exact hset o₀ qty (hP x o₀ ho₀)

theorem fillHeld_pos (hpos : ∀ h o, held h = some o → 0 < o.remainingQty)
    (hle : fill.2 ≤ fill.1.order.remainingQty) :
    ∀ h o, fillHeld held fill h = some o → 0 < o.remainingQty := by
  intro x o hx
  unfold fillHeld at hx
  by_cases hxh : x = fill.1.handle
  · subst hxh
    rw [update_self] at hx
    split_ifs at hx
    cases hx
    show 0 < fill.1.order.remainingQty - fill.2
    omega
  · rw [update_of_ne hxh] at hx
    exact hpos x o hx

theorem heldQty_nonneg (hpos : ∀ h o, held h = some o → 0 < o.remainingQty) (n : Nat)
    (c : Resting → Bool) : 0 ≤ heldQty n held c := by
  refine sum_nonneg fun x hx => ?_
  obtain ⟨h, -, rfl⟩ := mem_map.1 hx
  cases hheld : (held h).filter c with
  | none => exact le_rfl
  | some o => exact (hpos h o (Option.filter_eq_some_iff.1 hheld).1).le

theorem Drawn.heldQty (hd : Drawn held fills) (hbound : ∀ h, held h ≠ none → h < n) :
    heldQty n (fills.foldl fillHeld held) (fun _ => true) + filledQty fills =
      heldQty n held fun _ => true := by
  induction fills generalizing held with
  | nil => exact Int.add_zero _
  | cons fill fills ih =>
    obtain ⟨hheld, -, -, -, hrest⟩ := hd
    have hstep := heldQty_fillHeld (c := fun _ => true) (fun _ _ => rfl)
      (hbound _ (by rw [hheld]; simp)) hheld
    have := ih hrest fun x hx => hbound x (fillHeld_ne_none hheld hx)
    rw [foldl_cons, filledQty_cons]
    simp only [if_true] at hstep
    omega

end HeldQty

structure Tallied (n : Nat) (users : UserRegistry) (held : Nat → Option Resting) : Prop where
  consistent : users.Consistent
  ranged : users.Ranged
  bound : ∀ h, held h ≠ none → h < n
  count : ∀ u, users.ordersOf u = heldBy n held u

section

variable (ht : Tallied n users held)
include ht

theorem Tallied.bound_update (hh : h < n) (v : Option Resting) :
    ∀ x, update held h v x ≠ none → x < n := by
  intro x hx
  by_cases hxh : x = h
  · exact hxh ▸ hh
  · rw [update_of_ne hxh] at hx
    exact ht.bound x hx

theorem Tallied.insert (hh : h < n) (hnone : held h = none) (o : Resting) :
    Tallied n (users.addOrder o.userId) (update held h (some o)) := by
  obtain ⟨hc, hstate⟩ := ht.consistent.addOrder o.userId
  refine ⟨hc, ht.ranged.congr fun u => (hstate u).1, ht.bound_update hh _, fun u => ?_⟩
  have hupdate := heldBy_update held hh (some o) u
  rw [hnone] at hupdate
  rw [(hstate u).2, ht.count u]
  by_cases hu : u = o.userId
  · subst hu
    simpa [ownedBy] using hupdate.symm
  · simpa [ownedBy, hu, Ne.symm hu] using hupdate.symm

theorem Tallied.remove (hheld : held h = some o) :
    Tallied n (users.removeOrder o.userId) (update held h none) := by
  have hh := ht.bound h (by rw [hheld]; simp)
  obtain ⟨hc, hstate⟩ := ht.consistent.removeOrder o.userId
  refine ⟨hc, ht.ranged.congr fun u => (hstate u).1, ht.bound_update hh _, fun u => ?_⟩
  have hupdate := heldBy_update held hh none u
  rw [hheld] at hupdate
  rw [(hstate u).2, ht.count u]
  by_cases hu : u = o.userId
  · subst hu
    simp only [ownedBy, Option.any_some, decide_true, if_true, Option.any_none,
      Bool.false_eq_true, if_false] at hupdate ⊢
    omega
  · simp only [ownedBy, Option.any_some, Ne.symm hu, decide_false, Bool.false_eq_true, if_false,
      Option.any_none, if_neg hu] at hupdate ⊢
    omega

theorem Tallied.change (hheld : held h = some o)
    (huser : o'.userId = o.userId) : Tallied n users (update held h (some o')) := by
  have hh := ht.bound h (by rw [hheld]; simp)
  refine ⟨ht.consistent, ht.ranged, ht.bound_update hh _, fun u => ?_⟩
  have hupdate := heldBy_update held hh (some o') u
  have howner : ownedBy u (some o') = ownedBy u (held h) := by
    rw [hheld, ownedBy, ownedBy, Option.any_some, Option.any_some, huser]
  rw [howner] at hupdate
  rw [ht.count u]
  exact (Nat.add_right_cancel hupdate).symm

theorem Tallied.applyFill (taker maker : Nat) (side : Side)
    (qty : Int) : Tallied n (users.applyFill taker maker side qty) held := by
  obtain ⟨hc, hstate⟩ := ht.consistent.applyFill taker maker side qty
  exact ⟨hc, ht.ranged.applyFill ht.consistent taker maker side qty, ht.bound,
    fun u => (hstate u).trans (ht.count u)⟩

theorem Tallied.oneFill (taker : IncomingOrder) {fill : Entry × Int}
    (hheld : held fill.1.handle = some fill.1.order) :
    Tallied n (fillUsers taker users fill) (fillHeld held fill) := by
  have hfill := ht.applyFill taker.userId fill.1.order.userId taker.side fill.2
  unfold fillUsers fillHeld
  by_cases hfull : fill.1.order.remainingQty = fill.2
  · simp only [if_pos hfull]
    exact hfill.remove hheld
  · simp only [if_neg hfull]
    exact hfill.change hheld rfl

theorem Tallied.netOf_fillUsers (taker : IncomingOrder) (fill : Entry × Int) (u : Nat) :
    (fillUsers taker users fill).netOf u =
      (users.applyFill taker.userId fill.1.order.userId taker.side fill.2).netOf u := by
  obtain ⟨hc, -⟩ := ht.consistent.applyFill taker.userId fill.1.order.userId taker.side fill.2
  unfold fillUsers
  dsimp only
  split_ifs
  · exact ((hc.removeOrder _).2 u).1
  · rfl

theorem Tallied.foldFills (taker : IncomingOrder) (hd : Drawn held fills) :
    Tallied n (fills.foldl (fillUsers taker) users) (fills.foldl fillHeld held) := by
  induction fills generalizing users held with
  | nil => exact ht
  | cons fill fills ih =>
    obtain ⟨hheld, -, -, -, hrest⟩ := hd
    exact ih (ht.oneFill taker hheld) hrest

end

theorem Queued.held_lt (hq : Queued b q free) {h : Nat} (hh : b.held h ≠ none) :
    h < b.orders.capacity := by
  have hactive : (b.slot h).active = true := by
    by_contra hnot
    exact hh (if_neg hnot)
  obtain ⟨_, ht⟩ := (hq.active h).1 hactive
  exact hq.repr.lt_capacity ht

theorem Queued.held_pos (hq : Queued b q free) : ∀ h o, b.held h = some o → 0 < o.remainingQty := by
  intro h o hheld
  unfold held at hheld
  split_ifs at hheld with hactive
  obtain ⟨t, ht⟩ := (hq.active h).1 hactive
  cases hheld
  exact hq.pos t h ht

theorem held_eq (hactive : (b.slot h).active = true) : b.held h = some (b.slot h).resting :=
  if_pos hactive

theorem Queued.handles_perm (hq : Queued b q free) : (contents b.compression.totalSlots q).Perm
      ((range b.orders.capacity).filter fun h => (b.slot h).active) := by
  have hnodup : (contents b.compression.totalSlots q).Nodup := by
    have h := hq.repr.cover.nodup_iff.2 nodup_range
    exact (nodup_append.1 (nodup_append.1 h).1).1
  refine (perm_ext_iff_of_nodup hnodup (nodup_range.filter _)).2 fun h => ?_
  rw [mem_contents, mem_filter, mem_range, hq.active h]
  constructor
  · rintro ⟨t, -, hmem⟩
    exact ⟨hq.repr.lt_capacity hmem, t, hmem⟩
  · rintro ⟨-, t, hmem⟩
    refine ⟨t, ?_, hmem⟩
    by_contra hout
    rw [hq.repr.outside t (by omega)] at hmem
    exact not_mem_nil hmem

theorem Queued.heldQty_eq (hq : Queued b q free) :
    heldQty b.orders.capacity b.held (fun _ => true) = b.exchange.totalQty := by
  have hentries : b.entries q = (contents b.compression.totalSlots q).map b.entry := by
    unfold entries contents view
    rw [map_flatMap]
  have hsum : heldQty b.orders.capacity b.held (fun _ => true) =
      (((range b.orders.capacity).filter fun h => (b.slot h).active).map
        fun h => (b.slot h).remainingQty).sum := by
    unfold heldQty
    rw [sum_range_filter (p := fun h => (b.slot h).active) _ fun h hh => by simp [held, hh]]
    refine congrArg sum (map_congr_left fun h hh => ?_)
    rw [held, if_pos (mem_filter.1 hh).2]
    rfl
  rw [hq.totalQty_exchange, hentries, hsum, ← (hq.handles_perm.map _).sum_eq]
  unfold total
  rw [map_map]
  rfl

theorem Tallied.recorded (ht : Tallied b.orders.capacity b.users b.held) (hq' : Queued b' q' free')
    (hr : Recorded order b fills handle ending bbo b') :
    Tallied b'.orders.capacity b'.users b'.held := by
  have hfills := ht.foldFills order hr.drawn
  rw [hr.frame.capacity, hr.users, hr.held]
  cases ending with
  | done | failed => exact hfills
  | inserted qty =>
    refine hfills.insert ?_ hr.fresh (order.setRemaining qty).resting
    rw [← hr.frame.capacity]
    refine hq'.held_lt ?_
    rw [hr.held]
    simp [endHeld]

theorem covered_foldFills (hc : users.Covered) (taker : IncomingOrder)
    (fills : List (Entry × Int)) : (fills.foldl (fillUsers taker) users).Covered := by
  induction fills generalizing users with
  | nil => exact hc
  | cons fill fills ih =>
    apply ih
    have hfill := hc.applyFill taker.userId fill.1.order.userId taker.side fill.2
    unfold fillUsers
    dsimp only
    split_ifs
    · exact hfill.removeOrder _
    · exact hfill

theorem Recorded.covered (hr : Recorded order b fills handle ending bbo b') (hc : b.users.Covered) :
    b'.users.Covered := by
  have hfills := covered_foldFills hc order fills
  rw [hr.users]
  cases ending with
  | done | failed => exact hfills
  | inserted => exact hfills.addOrder order.userId

theorem Recorded.totalQty_le (hr : Recorded order b fills handle ending bbo b')
    (hq : Queued b q free) (hq' : Queued b' q' free') (hqty : 0 ≤ order.remainingQty) :
    b'.exchange.totalQty ≤ b.exchange.totalQty + order.remainingQty := by
  have hfills := hr.drawn.heldQty fun _ => hq.held_lt
  have hnonneg := hr.drawn.filledQty_nonneg
  rw [← hq.heldQty_eq, ← hq'.heldQty_eq, hr.frame.capacity, hr.held]
  cases ending with
  | done | failed =>
    show heldQty _ (fills.foldl fillHeld b.held) _ ≤ _
    omega
  | inserted qty =>
    obtain ⟨-, _⟩ := hr.accounts hqty
    have hlt : handle < b.orders.capacity := by
      rw [← hr.frame.capacity]
      refine hq'.held_lt ?_
      rw [hr.held]
      simp [endHeld]
    have hinsert : heldQty b.orders.capacity (endHeld order handle
        (fills.foldl fillHeld b.held) (.inserted qty)) (fun _ => true) = _ :=
      heldQty_insert hlt hr.fresh (order.setRemaining qty).resting fun _ => true
    have hrest : (order.setRemaining qty).resting.remainingQty = qty := rfl
    omega

end Rsx.Book.Orderbook
