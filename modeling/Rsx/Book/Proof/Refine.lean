import Rsx.Book.Exchange
import Rsx.Book.Proof.Insert

/-!
# The book refines the naive exchange

The exchange a book stands for, and what matching and resting an order do to it.
-/

namespace Rsx.Book

open Function PriceTime HasQty Buckets List Exchange IncomingOrder Side

theorem Side.key_surjective (s : Side) : Function.Surjective s.key := by
  intro k
  cases s with
  | buy => exact ⟨-k, neg_neg k⟩
  | sell => exact ⟨k, rfl⟩

namespace Orderbook

variable {b b' : Orderbook} {q q' : Nat → List Nat} {free free' : List Nat} {s : Side} {t h : Nat}
  {taker : IncomingOrder}
  {o : Resting} {c : Entry → Bool} {e : Entry}

theorem Queued.resting_eq (hq : Queued b q free) : b.resting = (b.entries q).map Entry.order := by
  unfold resting entries contents
  rw [map_flatMap]
  refine flatMap_congr fun t _ => ?_
  rw [hq.repr.levelOrders_eq, view, map_map, map_map]
  rfl

theorem Queued.mem_resting (hq : Queued b q free) :
    o ∈ b.resting ↔ ∃ t, ∃ e ∈ b.view q t, e.order = o := by
  rw [hq.resting_eq, mem_map]
  constructor
  · rintro ⟨e, he, rfl⟩
    obtain ⟨t, -, he⟩ := mem_contents.1 he
    exact ⟨t, e, he, rfl⟩
  · rintro ⟨t, _, he, rfl⟩
    obtain ⟨_, hh, rfl⟩ := mem_map.1 he
    exact ⟨_, mem_contents.2 ⟨t, hq.repr.lt_total hh, he⟩, rfl⟩

theorem filter_side_price (l : List Entry) (s : Side) (p : Int) :
    (((l.map Entry.order).filter fun o => o.side = s).filter fun o => o.price = p) =
      (l.filter (atPrice s p)).map Entry.order := by
  rw [filter_filter, filter_map]
  refine congrArg (List.map _) (filter_congr fun e _ => ?_)
  simp only [comp_apply, atPrice, Bool.and_comm, Bool.decide_and]

theorem total_map_order (l : List Entry) : total (l.map Entry.order) = total l := by
  unfold total
  rw [map_map]
  rfl

section

variable (hq : Queued b q free)
include hq

theorem Queued.filter_orders (s : Side) (p : Int) :
    ((b.exchange.orders s).filter fun o => o.price = p) =
      ((b.entries q).filter (atPrice s p)).map Entry.order := by
  have hkey : (fun o : Resting => decide (o.price = p)) =
      fun o => decide (s.key o.price = s.key p) :=
    funext fun o => by simp only [key_inj]
  rw [← filter_side_price, ← hq.resting_eq, hkey]
  exact filter_arrange _ _

theorem Queued.orders_eq {l : List Resting} (hl : Sorted (fun o : Resting => s.key o.price) l)
    (h : ∀ p, (l.filter fun o => o.price = p) =
      ((b.entries q).filter (atPrice s p)).map Entry.order) :
    b.exchange.orders s = l := by
  refine (b.exchange.sorted s).eq_of_filter_eq hl fun k => ?_
  obtain ⟨_, rfl⟩ := s.key_surjective k
  simp only [key_inj]
  rw [hq.filter_orders, h]

theorem exchange_congr (hq' : Queued b' q' free')
    (h : ∀ s p, (b'.entries q').filter (atPrice s p) = (b.entries q).filter (atPrice s p)) :
    b'.exchange = b.exchange := by
  refine Exchange.ext (funext fun s => hq'.orders_eq (b.exchange.sorted s) fun p => ?_)
  rw [hq.filter_orders, h]

theorem Queued.makers_eq (taker : IncomingOrder) :
    b.exchange.makers taker = (taker.crossing (b.entries q)).map Entry.order := by
  unfold makers exchange crossing
  simp only
  rw [hq.resting_eq, filter_map, arrange_map, filter_map, ← arrange_filter, filter_filter]
  refine congrArg (List.map _) (congrArg (arrange _) (filter_congr fun e _ => ?_))
  rw [Bool.eq_iff_iff, crosses, selects_iff]
  simp only [comp_apply, Bool.and_eq_true, decide_eq_true_eq, within_iff]
  exact And.comm

theorem Queued.consumed_eq (taker : IncomingOrder) :
    let o := consume maxMakersPerOrder taker.remainingQty (taker.crossing (b.entries q))
    b.exchange.consumed taker =
      { fills := o.fills.map fun x => (x.1.order, x.2)
        rest := o.rest.map Entry.order
        budget := o.budget
        left := o.left } := by
  unfold consumed
  rw [hq.makers_eq]
  exact consumeIf_map Entry.order (fun _ => rfl) fun _ _ => rfl

end

theorem Matched.filter_entries {o : Outcome Entry} (hm : Matched taker b q o b' q' free')
    (hc : ∀ e, c e → ¬ taker.crosses e) (hset : ∀ e x, c (setQty e x) = c e) :
    (b'.entries q').filter c = (b.entries q).filter c := by
  obtain ⟨_, -, htraded⟩ := hm.traded
  unfold entries contents
  rw [htraded.frame.compression, filter_flatMap, filter_flatMap]
  exact flatMap_congr fun t _ => hm.other c hc hset t

theorem Matched.exchange_eq (hq : Queued b q free) (hm : Matched taker b q
      (consume maxMakersPerOrder taker.remainingQty (taker.crossing (b.entries q))) b' q' free') :
    b'.exchange = b.exchange.matched taker := by
  set o := consume maxMakersPerOrder taker.remainingQty (taker.crossing (b.entries q)) with ho
  have hq' := hm.standing.queued
  refine Exchange.ext (funext fun s => hq'.orders_eq ((b.exchange.matched taker).sorted s)
    fun p => ?_)
  have hkeep : (s = taker.side.opposite → taker.side.within p taker.price = false) →
      (b'.entries q').filter (atPrice s p) = (b.entries q).filter (atPrice s p) := by
    intro hout
    refine hm.filter_entries (fun e he hcross => ?_) fun _ _ => rfl
    obtain ⟨hs, hp⟩ := of_decide_eq_true he
    obtain ⟨hside, hle⟩ := selects_iff.1 hcross
    have := hout (hs ▸ hside)
    rw [← hp, Side.within_iff.2 hle] at this
    exact absurd this (by decide)
  by_cases hs : s = taker.side.opposite
  · subst hs
    have horders : (b.exchange.matched taker).orders taker.side.opposite =
        o.rest.map Entry.order ++ (b.exchange.orders taker.side.opposite).filter fun o =>
          ¬ taker.side.within o.price taker.price := by
      rw [Exchange.orders_matched, hq.consumed_eq]
    rw [horders, filter_append, filter_filter]
    by_cases hin : taker.side.within p taker.price = true
    · -- The queue of a crossing price is what is left of the priority list.
      have hout : ((b.exchange.orders taker.side.opposite).filter fun o =>
          decide (o.price = p) && decide ¬ taker.side.within o.price taker.price) = [] := by
        rw [filter_eq_nil_iff]
        intro o _ hcond
        simp only [Bool.and_eq_true, decide_eq_true_eq] at hcond
        exact hcond.2 (hcond.1 ▸ hin)
      rw [hout, append_nil, ← hm.crossing, filter_map]
      refine congrArg (List.map _) ?_
      have hkey : ((fun o : Resting => decide (o.price = p)) ∘ Entry.order) =
          fun e => decide (taker.makerKey e = taker.side.opposite.key p) :=
        funext fun e => by simp only [comp_apply, IncomingOrder.makerKey, Side.key_inj]
      rw [hkey, IncomingOrder.crossing, filter_arrange, filter_filter]
      refine filter_congr fun e _ => ?_
      rw [Bool.eq_iff_iff, Bool.and_eq_true, decide_eq_true_eq, IncomingOrder.crosses, selects_iff,
        IncomingOrder.makerKey, Side.key_inj, atPrice, decide_eq_true_eq]
      constructor
      · rintro ⟨hp, hside, -⟩
        exact ⟨hside, hp⟩
      · rintro ⟨hside, hp⟩
        exact ⟨hp, hside, hp ▸ Side.within_iff.1 hin⟩
    · -- Prices beyond the limit keep their queues.
      have hnone : ((o.rest.map Entry.order).filter fun o => o.price = p) = [] := by
        rw [filter_eq_nil_iff]
        intro x hx hp
        obtain ⟨_, he, rfl⟩ := mem_map.1 hx
        rw [← hm.crossing] at he
        have hcross := (mem_filter.1 (mem_arrange.1 he)).2
        refine hin ?_
        rw [← of_decide_eq_true hp]
        exact Side.within_iff.2 (selects_iff.1 hcross).2
      have hall : ((b.exchange.orders taker.side.opposite).filter fun o =>
          decide (o.price = p) && decide ¬ taker.side.within o.price taker.price) =
            (b.exchange.orders taker.side.opposite).filter fun o => o.price = p := by
        refine filter_congr fun o _ => ?_
        by_cases hp : o.price = p
        · simp [hp, hin]
        · simp [hp]
      rw [hnone, nil_append, hall, hq.filter_orders, hkeep fun _ => Bool.eq_false_iff.2 hin]
  · rw [Exchange.orders_matched_of_ne hs, hq.filter_orders, hkeep fun h => absurd h hs]

theorem filter_joined {v : Nat → List Entry} {n : Nat}
    (ht : t < n) (hc : c e → ∀ u, u ≠ t → ∀ x ∈ v u, ¬ c x) :
    (contents n (joined v t e)).filter c = (contents n v).filter c ++ [e].filter c := by
  by_cases hce : c e
  · have honly := hc hce
    have honly' : ∀ u, u ≠ t → ∀ x ∈ joined v t e u, ¬ c x := by
      intro u hu x hx
      rcases mem_joined.1 hx with hx | ⟨rfl, -⟩
      · exact honly u hu x hx
      · exact absurd rfl hu
    rw [filter_contents ht honly, filter_contents ht honly', joined, update_self, filter_append]
  · rw [filter_cons_of_neg hce, filter_nil, append_nil]
    unfold contents
    rw [filter_flatMap, filter_flatMap]
    refine flatMap_congr fun u _ => ?_
    unfold joined
    by_cases hu : u = t
    · rw [hu, update_self, filter_append, filter_cons_of_neg hce]
      simp
    · rw [update_of_ne hu]

theorem exchange_joined (hst : Standing b q free) (hst' : Standing b' q' free')
    (hcomp : b'.compression = b.compression) (hplaces : b.compression.Places t o.price)
    (hview : b'.view q' = joined (b.view q) t ⟨h, o⟩) : b'.exchange = b.exchange.add o := by
  refine Exchange.ext (funext fun s =>
    hst'.queued.orders_eq ((b.exchange.add o).sorted s) fun p => ?_)
  have hlt : t < b.compression.totalSlots := by
    rw [← hplaces.index]
    exact hst.exact.priceToIndex_lt o.price
  have hentries : (b'.entries q').filter (atPrice s p) =
      (b.entries q).filter (atPrice s p) ++ [⟨h, o⟩].filter (atPrice s p) := by
    unfold entries
    rw [hcomp, hview]
    refine filter_joined hlt fun hat u hu x hx hatx => hu ?_
    rw [← (hst.placed u x hx).index, (of_decide_eq_true hatx).2, ← (of_decide_eq_true hat).2]
    exact hplaces.index
  rw [hentries, map_append, ← hst.queued.filter_orders]
  by_cases hs : s = o.side
  · subst hs
    have hkey : (fun x : Resting => decide (x.price = p)) =
        fun x => decide (o.side.key x.price = o.side.key p) :=
      funext fun x => by simp only [Side.key_inj]
    rw [Exchange.orders_add, hkey, filter_place]
    by_cases hp : o.price = p
    · simp [atPrice, hp]
    · simp [atPrice, hp]
  · have hnil : [(⟨h, o⟩ : Entry)].filter (atPrice s p) = [] :=
      filter_cons_of_neg fun hat => hs (of_decide_eq_true hat).1.symm
    rw [Exchange.orders_add_of_ne hs, hnil, map_nil, append_nil]

theorem exchange_removed {l₁ l₂ : List Entry} (hst : Standing b q free)
    (hst' : Standing b' q' free') (hcomp : b'.compression = b.compression)
    (hsplit : b.view q t = l₁ ++ e :: l₂)
    (hview : b'.view q' = update (b.view q) t (l₁ ++ l₂)) :
    ∃ o₁ o₂, b.exchange.orders e.order.side = o₁ ++ e.order :: o₂ ∧
      b'.exchange.orders e.order.side = o₁ ++ o₂ ∧
      ∀ s, s ≠ e.order.side → b'.exchange.orders s = b.exchange.orders s := by
  have hmem : e ∈ b.view q t := by
    rw [hsplit]
    simp
  have hplaces := hst.placed t e hmem
  have hlt : t < b.compression.totalSlots := by
    rw [← hplaces.index]
    exact hst.exact.priceToIndex_lt _
  -- A queue that does not hold the order stays as it was.
  have hother : ∀ s p, ¬ atPrice s p e →
      (b'.entries q').filter (atPrice s p) = (b.entries q).filter (atPrice s p) := by
    intro s p hat
    unfold entries contents
    rw [hcomp, hview, filter_flatMap, filter_flatMap]
    refine flatMap_congr fun u _ => ?_
    by_cases hu : u = t
    · rw [hu, update_self, hsplit, filter_append, filter_append, filter_cons_of_neg hat]
    · rw [update_of_ne hu]
  set side := e.order.side with hside
  set price := e.order.price with hprice
  have hself : atPrice side price e := decide_eq_true ⟨hside.symm, hprice.symm⟩
  -- The queue of the order's own price is in its slot.
  have honly : ∀ u, u ≠ t → ∀ x ∈ b.view q u, ¬ atPrice side price x := by
    intro u hu x hx hat
    refine hu ?_
    rw [← (hst.placed u x hx).index, (of_decide_eq_true hat).2]
    exact hplaces.index
  have honly' : ∀ u, u ≠ t → ∀ x ∈ b'.view q' u, ¬ atPrice side price x := by
    intro u hu x hx
    rw [hview, update_of_ne hu] at hx
    exact honly u hu x hx
  have hbefore : ((b.exchange.orders side).filter fun o => o.price = price) =
      (l₁.filter (atPrice side price)).map Entry.order ++
        e.order :: (l₂.filter (atPrice side price)).map Entry.order := by
    rw [hst.queued.filter_orders, entries, filter_contents hlt honly, hsplit, filter_append,
      filter_cons_of_pos hself, map_append, map_cons]
  have hafter : (b'.entries q').filter (atPrice side price) =
      l₁.filter (atPrice side price) ++ l₂.filter (atPrice side price) := by
    rw [entries, hcomp, filter_contents hlt honly', hview, update_self, filter_append]
  obtain ⟨o₁, _, hsides, ho₁, hrest⟩ := filter_eq_append_iff.1 hbefore
  obtain ⟨skip, o₂, rfl, hskip, -, ho₂⟩ := filter_eq_cons_iff.1 hrest
  have hskipped : skip.filter (fun o => decide (o.price = price)) = [] :=
    filter_eq_nil_iff.2 hskip
  refine ⟨o₁ ++ skip, o₂, by rw [hsides, append_assoc], ?_, fun s hs => ?_⟩
  · refine hst'.queued.orders_eq ?_ fun p => ?_
    · have hsorted := b.exchange.sorted side
      rw [hsides, ← append_assoc] at hsorted
      exact hsorted.sublist (List.Sublist.append_left (sublist_cons_self _ _) _)
    · by_cases hp : p = price
      · rw [hp, hafter, filter_append, filter_append, ho₁, hskipped, ho₂, append_nil, map_append]
      · have hout : ¬ atPrice side p e := fun hat => hp (of_decide_eq_true hat).2.symm
        have hdrop : ((e.order :: o₂).filter fun o => o.price = p) =
            o₂.filter fun o => o.price = p :=
          filter_cons_of_neg fun hat => hp (of_decide_eq_true hat).symm
        rw [hother side p hout, ← hst.queued.filter_orders, hsides, filter_append,
          filter_append, filter_append, filter_append, hdrop, append_assoc]
  · refine hst'.queued.orders_eq (b.exchange.sorted s) fun p => ?_
    rw [hst.queued.filter_orders, hother s p fun hat => hs (of_decide_eq_true hat).1.symm]

theorem orders_perm (b : Orderbook) :
    (b.exchange.orders .buy ++ b.exchange.orders .sell).Perm b.resting := by
  have hsell : (fun o : Resting => decide (o.side = .sell)) = fun o => !decide (o.side = .buy) := by
    funext o
    cases o.side <;> rfl
  refine ((perm_arrange _ _).append (perm_arrange _ _)).trans ?_
  rw [hsell]
  exact filter_append_perm _ _

theorem Queued.size_exchange (hq : Queued b q free) : b.exchange.size = (b.entries q).length := by
  have hlen := b.orders_perm.length_eq
  rw [hq.resting_eq, length_append, length_map] at hlen
  exact hlen

theorem Queued.totalQty_exchange (hq : Queued b q free) :
    b.exchange.totalQty = total (b.entries q) := by
  have htotal := total_perm b.orders_perm
  rw [total_append, hq.resting_eq, total_map_order] at htotal
  exact htotal

theorem Queued.length_entries_le (hq : Queued b q free) :
    (b.entries q).length ≤ b.orders.capacity := by
  have hlen := hq.repr.cover.length_eq
  have := hq.repr.bump_le
  simp only [length_append, length_range] at hlen
  rw [length_entries]
  omega

theorem Standing.bestCrosses_iff (hst : Standing b q free) (order : IncomingOrder) :
    b.bestCrosses order = true ↔ b.exchange.makers order ≠ [] := by
  rw [hst.queued.makers_eq, ne_eq, map_eq_nil_iff]
  unfold bestCrosses
  rw [Bool.and_eq_true, decide_eq_true_eq]
  rcases hst.tracks order.side.opposite with ⟨hnone, -, hempty⟩ | ⟨e, hbest, hpx⟩
  · have hnil : order.crossing (b.entries q) = [] := crossing_eq_nil_of_empty hempty
    exact ⟨fun h => absurd hnone h.1, fun h => absurd hnil h⟩
  · rw [hpx, within_iff]
    constructor
    · rintro ⟨-, hle⟩ hnil
      have hmem : e ∈ order.crossing (b.entries q) := by
        refine mem_arrange.2 (mem_filter.2 ⟨?_, selects_iff.2 ⟨hbest.side, hle⟩⟩)
        obtain ⟨_, hh, rfl⟩ := mem_map.1 hbest.mem
        exact mem_contents.2 ⟨_, hst.queued.repr.lt_total hh, hbest.mem⟩
      rw [hnil] at hmem
      exact not_mem_nil hmem
    · intro hne
      refine ⟨hst.ne_none hbest, ?_⟩
      by_contra hle
      exact hne (crossing_eq_nil_of_best hbest fun hcross => hle (selects_iff.1 hcross).2)

end Orderbook

end Rsx.Book
