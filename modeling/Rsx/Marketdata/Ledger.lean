import Rsx.Book.Representation
import Rsx.Lib.Ladder
import Rsx.Marketdata.Shadow

/-!
# What the records say

The records of one symbol tell which orders rest: a ledger of the order ids.  A book lists a ledger
when its slab holds these orders and no others.  Two books that list the same ledger have the same
levels, whatever their slots and compression maps.  -/

namespace Rsx.Marketdata

open Function Book

structure Quote where
  side : Side
  price : Int
  qty : Int
  deriving DecidableEq, Repr

open Book.Orderbook

/-! ## Levels -/

/-- The total quantity and the number of orders of a price. -/
def levelOf (quotes : List Quote) (s : Side) (p : Int) : L2Level where
  price := p
  qty := ((quotes.filter fun x => x.side = s ∧ x.price = p).map Quote.qty).sum
  count := (quotes.filter fun x => x.side = s ∧ x.price = p).length

def ladder (quotes : List Quote) (s : Side) : List L2Level :=
  (((quotes.filter fun x => x.side = s).map Quote.price).dedup.insertionSort
    fun p p' => s.key p ≤ s.key p').map (levelOf quotes s)

section Levels

variable {quotes quotes' : List Quote} {s : Side} {p : Int} {level : L2Level}

theorem key_injective (s : Side) : Function.Injective s.key := by
  intro p p' h
  cases s with
  | buy => exact Int.neg_inj.1 h
  | sell => exact h

theorem sorted_ladder (quotes : List Quote) (s : Side) :
    Ladder.Sorted (fun level : L2Level => s.key level.price) (ladder quotes s) := by
  refine List.pairwise_map.2 ?_
  exact Ladder.sorted_insertionSort ((List.nodup_dedup _).map (key_injective s))

theorem mem_ladder : level ∈ ladder quotes s ↔
    0 < level.count ∧ level = levelOf quotes s level.price := by
  have hprice : ∀ p, p ∈ ((quotes.filter fun x => x.side = s).map Quote.price).dedup.insertionSort
      (fun p p' => s.key p ≤ s.key p') ↔ 0 < (levelOf quotes s p).count := by
    intro p
    rw [List.mem_insertionSort, List.mem_dedup, levelOf, List.length_pos_iff_exists_mem,
      List.mem_map]
    simp only [List.mem_filter, decide_eq_true_eq, and_assoc]
  rw [ladder, List.mem_map]
  constructor
  · rintro ⟨p, hp, rfl⟩
    exact ⟨(hprice p).1 hp, rfl⟩
  · rintro ⟨hcount, heq⟩
    exact ⟨level.price, (hprice _).2 (heq ▸ hcount), heq.symm⟩

theorem ladder_congr (h : ∀ p, levelOf quotes s p = levelOf quotes' s p) :
    ladder quotes s = ladder quotes' s := by
  refine (sorted_ladder quotes s).ext (sorted_ladder quotes' s) fun level => ?_
  rw [mem_ladder, mem_ladder, h]

theorem levelOf_perm (h : quotes.Perm quotes') (s : Side) (p : Int) :
    levelOf quotes s p = levelOf quotes' s p := by
  have hperm := h.filter fun x => x.side = s ∧ x.price = p
  unfold levelOf
  rw [(hperm.map Quote.qty).sum_eq, hperm.length_eq]

end Levels

/-! ## The ledger -/

abbrev Ledger := OrderId → Option Quote

def Quote.less (x : Quote) (qty : Int) : Option Quote :=
  if x.qty - qty ≤ 0 then none else some { x with qty := x.qty - qty }

def Ledger.record (L : Ledger) : Matching.Record → Ledger
  | .orderInserted _ _ orderIdHi orderIdLo price qty side _ _ =>
    update L (orderIdHi, orderIdLo) (some ⟨side, price, qty⟩)
  | .orderCancelled _ _ orderIdHi orderIdLo _ _ _ => update L (orderIdHi, orderIdLo) none
  | .fill rec =>
    update L (rec.makerOrderIdHi, rec.makerOrderIdLo)
      ((L (rec.makerOrderIdHi, rec.makerOrderIdLo)).bind (·.less rec.qty))
  | _ => L

def Ledger.records (L : Ledger) (records : List Matching.Record) : Ledger :=
  records.foldl Ledger.record L

def orderId (o : Resting) : OrderId :=
  (o.orderIdHi, o.orderIdLo)

def quote (o : Resting) : Quote :=
  ⟨o.side, o.price, o.remainingQty⟩

/-- The orders under the handles below `n` are those of the ledger, each id once. -/
structure Lists (n : Nat) (held : Nat → Option Resting) (L : Ledger) : Prop where
  bound : ∀ h, held h ≠ none → h < n
  quoted : ∀ h o, held h = some o → L (orderId o) = some (quote o)
  found : ∀ id x, L id = some x → ∃ h o, held h = some o ∧ orderId o = id
  unique : ∀ h h' o o', held h = some o → held h' = some o' → orderId o = orderId o' → h = h'

def quotesOf (n : Nat) (held : Nat → Option Resting) : List Quote :=
  (List.range n).filterMap fun h => (held h).map quote

namespace Lists

variable {n n' h : Nat} {held held' : Nat → Option Resting} {L : Ledger} {o o' : Resting}

theorem empty (n : Nat) : Lists n (fun _ => none) fun _ => none where
  bound := fun _ hh => absurd rfl hh
  quoted := fun _ _ ho => nomatch ho
  found := fun _ _ hx => nomatch hx
  unique := fun _ _ _ _ ho => nomatch ho

variable (hl : Lists n held L)
include hl

/-- What one handle holds is exchanged: no other handle holds the id, and this one nothing else. -/
theorem put {id : OrderId} {v : Option Resting} (hh : h < n) (hv : ∀ o ∈ v, orderId o = id)
    (hsole : ∀ x o, held x = some o → (orderId o = id ↔ x = h)) :
    Lists n (update held h v) (update L id (v.map quote)) where
  bound := by
    intro x hx
    rcases eq_or_ne x h with rfl | hne
    · exact hh
    · exact hl.bound x (by rwa [update_of_ne hne] at hx)
  quoted := by
    intro x o ho
    rcases eq_or_ne x h with rfl | hne
    · rw [update_self] at ho
      rw [hv o ho, update_self, ho]
      rfl
    · rw [update_of_ne hne] at ho
      rw [update_of_ne ((hsole x o ho).not.2 hne)]
      exact hl.quoted x o ho
  found := by
    intro other x hx
    rcases eq_or_ne other id with rfl | hne
    · rw [update_self] at hx
      obtain ⟨o, ho, -⟩ := Option.map_eq_some_iff.1 hx
      exact ⟨h, o, (update_self ..).trans ho, hv o ho⟩
    · rw [update_of_ne hne] at hx
      obtain ⟨h', o, ho, rfl⟩ := hl.found other x hx
      exact ⟨h', o, (update_of_ne ((hsole h' o ho).not.1 hne) ..).trans ho, rfl⟩
  unique := by
    have hholds : ∀ {x o}, update held h v x = some o → (orderId o = id ↔ x = h) := by
      intro x o ho
      rcases eq_or_ne x h with rfl | hne
      · rw [update_self] at ho
        exact iff_of_true (hv o ho) rfl
      · rw [update_of_ne hne] at ho
        exact hsole x o ho
    intro x y o₁ o₂ hx hy hid
    by_cases hhere : orderId o₁ = id
    · exact ((hholds hx).1 hhere).trans ((hholds hy).1 (hid ▸ hhere)).symm
    · rw [update_of_ne ((hholds hx).not.1 hhere)] at hx
      rw [update_of_ne ((hholds hy).not.1 (hid ▸ hhere))] at hy
      exact hl.unique x y o₁ o₂ hx hy hid

theorem insert (hh : h < n) (hnone : held h = none) (hfresh : L (orderId o) = none) :
    Lists n (update held h (some o)) (update L (orderId o) (some (quote o))) := by
  refine hl.put hh (fun _ ho => Option.some.inj ho ▸ rfl) fun x o' ho' => iff_of_false ?_ ?_
  · intro hid
    cases (hid ▸ hl.quoted x o' ho').symm.trans hfresh
  · rintro rfl
    cases ho'.symm.trans hnone

theorem orderId_eq_iff (ho : held h = some o) {x : Nat} (hx : held x = some o') :
    orderId o' = orderId o ↔ x = h := by
  refine ⟨hl.unique x h o' o hx ho, ?_⟩
  rintro rfl
  exact congrArg orderId (Option.some.inj (hx.symm.trans ho))

theorem remove (ho : held h = some o) :
    Lists n (update held h none) (update L (orderId o) none) :=
  hl.put (hl.bound h (by simp [ho])) nofun fun _ _ hx => hl.orderId_eq_iff ho hx

theorem change (ho : held h = some o) (hid : orderId o' = orderId o) :
    Lists n (update held h (some o')) (update L (orderId o) (some (quote o'))) :=
  hl.put (hl.bound h (by simp [ho])) (fun _ ho' => Option.some.inj ho' ▸ hid)
    fun _ _ hx => hl.orderId_eq_iff ho hx

theorem nodup_pairs :
    ((List.range n).filterMap fun h => (held h).map fun o => (orderId o, quote o)).Nodup := by
  refine List.Nodup.filterMap ?_ List.nodup_range
  intro x y pair hx hy
  obtain ⟨o, ho, rfl⟩ := Option.map_eq_some_iff.1 hx
  obtain ⟨o', ho', heq⟩ := Option.map_eq_some_iff.1 hy
  exact hl.unique x y o o' ho ho' (congrArg Prod.fst heq).symm

theorem mem_pairs {id : OrderId} {x : Quote} :
    (id, x) ∈ (List.range n).filterMap (fun h => (held h).map fun o => (orderId o, quote o)) ↔
      L id = some x := by
  rw [List.mem_filterMap]
  constructor
  · rintro ⟨h, -, heq⟩
    obtain ⟨o, ho, hpair⟩ := Option.map_eq_some_iff.1 heq
    obtain ⟨rfl, rfl⟩ := Prod.mk.inj hpair
    exact hl.quoted h o ho
  · intro hx
    obtain ⟨h, o, ho, rfl⟩ := hl.found id x hx
    have hquoted := hl.quoted h o ho
    rw [hx] at hquoted
    refine ⟨h, List.mem_range.2 (hl.bound h (by simp [ho])), ?_⟩
    rw [ho, Option.map_some, Option.some.inj hquoted]

/-- **What lists the same ledger has the same quotes.** -/
theorem quotes_perm (hl' : Lists n' held' L) : (quotesOf n held).Perm (quotesOf n' held') := by
  have hpairs := (List.perm_ext_iff_of_nodup hl.nodup_pairs hl'.nodup_pairs).2 fun pair => by
    rw [hl.mem_pairs, hl'.mem_pairs]
  have hsnd : ∀ (n : Nat) (held : Nat → Option Resting), quotesOf n held =
      ((List.range n).filterMap fun h => (held h).map fun o => (orderId o, quote o)).map
        Prod.snd := by
    intro n held
    rw [List.map_filterMap]
    refine List.filterMap_congr fun h _ => ?_
    rw [Option.map_map]
    rfl
  rw [hsnd, hsnd]
  exact hpairs.map Prod.snd

end Lists

theorem sum_quotesOf (n : Nat) (held : Nat → Option Resting) :
    ((quotesOf n held).map Quote.qty).sum = heldQty n held fun _ => true := by
  unfold quotesOf heldQty
  induction List.range n with
  | nil => rfl
  | cons h l ih =>
    cases hh : held h with
    | none => simpa [hh] using ih
    | some =>
      simp only [List.filterMap_cons, hh, Option.map_some, List.map_cons, List.sum_cons, ih]
      rfl

/-! ## The quotes of a book -/

def quotes (b : Orderbook) : List Quote :=
  b.resting.map quote

section Quotes

variable {b : Orderbook} {q : Nat → List Nat} {free : List Nat}

variable (hq : Queued b q free)
include hq

theorem quotes_perm_quotesOf : (quotes b).Perm (quotesOf b.orders.capacity b.held) := by
  have hheld : quotesOf b.orders.capacity b.held =
      ((List.range b.orders.capacity).filter fun h => (b.slot h).active).map
        fun h => quote (b.slot h).resting := by
    unfold quotesOf
    induction List.range b.orders.capacity with
    | nil => rfl
    | cons h l ih =>
      by_cases hactive : (b.slot h).active = true
      · simp only [List.filterMap_cons, List.filter_cons, held_eq hactive, hactive, ih,
          Option.map_some, if_true, List.map_cons]
      · have hnone : b.held h = none := if_neg hactive
        simp only [List.filterMap_cons, List.filter_cons, hnone, hactive, ih, Option.map_none,
          Bool.false_eq_true, if_false]
  have hresting : quotes b =
      (Buckets.contents b.compression.totalSlots q).map fun h => quote (b.slot h).resting := by
    unfold quotes
    rw [hq.resting_eq, entries, Buckets.contents, Buckets.contents, List.map_map, List.map_flatMap,
      List.map_flatMap]
    refine List.flatMap_congr fun t _ => ?_
    rw [view, List.map_map]
    rfl
  rw [hheld, hresting]
  exact hq.handles_perm.map _

theorem sum_quotes : ((quotes b).map Quote.qty).sum = b.exchange.totalQty := by
  rw [((quotes_perm_quotesOf hq).map Quote.qty).sum_eq, sum_quotesOf, hq.heldQty_eq]

theorem quotes_pos : ∀ x ∈ quotes b, 0 < x.qty := by
  intro x hx
  obtain ⟨_, ho, rfl⟩ := List.mem_map.1 hx
  obtain ⟨t, _, he, rfl⟩ := hq.mem_resting.1 ho
  obtain ⟨h, hh, rfl⟩ := List.mem_map.1 he
  exact hq.pos t h hh

end Quotes

end Rsx.Marketdata
