import Rsx.Marketdata.Ledger

/-!
# The levels a shadow book publishes

The walk of `side_levels` through the slots and the walk of `level_at` through one slot give the
ladder and the level of the orders that rest.  -/

namespace Rsx.Marketdata

open Book Book.Orderbook List ShadowBook

def slotQuote (slot : OrderSlot) : Quote :=
  quote slot.resting

section Sums

variable {quotes : List Quote} {s : Side} {p : Int}

theorem levelOf_concat (quotes : List Quote) (x : Quote) : levelOf (quotes ++ [x]) s p =
      if x.side = s ∧ x.price = p then
        { levelOf quotes s p with
          qty := (levelOf quotes s p).qty + x.qty, count := (levelOf quotes s p).count + 1 }
      else levelOf quotes s p := by
  unfold levelOf
  rw [filter_append, filter_cons, filter_nil]
  by_cases hx : x.side = s ∧ x.price = p
  · rw [if_pos hx, if_pos (decide_eq_true hx)]
    simp
  · rw [if_neg hx, if_neg (fun h => hx (of_decide_eq_true h)), append_nil]

theorem sum_filter_le (hpos : ∀ x ∈ quotes, 0 < x.qty) (c : Quote → Bool) :
    0 ≤ ((quotes.filter c).map Quote.qty).sum ∧
      ((quotes.filter c).map Quote.qty).sum ≤ (quotes.map Quote.qty).sum := by
  induction quotes with
  | nil => simp
  | cons x quotes ih =>
    obtain ⟨_, _⟩ := ih fun y hy => hpos y (mem_cons_of_mem _ hy)
    have hx := hpos x (mem_cons_self ..)
    by_cases hc : c x = true
    · rw [filter_cons_of_pos hc, map_cons, map_cons, sum_cons, sum_cons]
      omega
    · rw [filter_cons_of_neg hc, map_cons, sum_cons]
      omega

theorem levelOf_qty_le (hpos : ∀ x ∈ quotes, 0 < x.qty) (s : Side) (p : Int) :
    0 ≤ (levelOf quotes s p).qty ∧ (levelOf quotes s p).qty ≤ (quotes.map Quote.qty).sum :=
  sum_filter_le hpos _

end Sums

def Summable (orders : List OrderSlot) : Prop :=
  (∀ order ∈ orders, 0 < order.remainingQty) ∧ ((orders.map slotQuote).map Quote.qty).sum ≤ i64Max

section Walk

variable {orders : List OrderSlot} {order : OrderSlot} {s : Side} {p : Int}

theorem Summable.init (h : Summable (orders ++ [order])) : Summable orders := by
  obtain ⟨hpos, hsum⟩ := h
  have hlast : 0 < order.remainingQty := hpos order (by simp)
  refine ⟨fun o ho => hpos o (mem_append_left _ ho), ?_⟩
  rw [map_append, map_append, sum_append, map_singleton, map_singleton, sum_singleton] at hsum
  have hqty : (slotQuote order).qty = order.remainingQty := rfl
  omega

theorem Summable.next (h : Summable (orders ++ [order])) (s : Side) (p : Int) :
    wrap64 ((levelOf (orders.map slotQuote) s p).qty + order.remainingQty) =
      (levelOf (orders.map slotQuote) s p).qty + order.remainingQty := by
  have hpos : ∀ x ∈ orders.map slotQuote, 0 < x.qty := by
    intro x hx
    obtain ⟨o, ho, rfl⟩ := mem_map.1 hx
    exact h.1 o (mem_append_left _ ho)
  obtain ⟨_, _⟩ := levelOf_qty_le hpos s p
  have hlast : 0 < order.remainingQty := h.1 order (by simp)
  have hsum := h.2
  rw [map_append, map_append, sum_append, map_singleton, map_singleton, sum_singleton] at hsum
  have hqty : (slotQuote order).qty = order.remainingQty := rfl
  exact wrap64_of_nonneg (by omega) (by omega)

theorem foldl_levelAt (h : Summable orders) : orders.foldl (fun level order =>
      if order.side = s ∧ order.price = p then
        { level with qty := wrap64 (level.qty + order.remainingQty), count := level.count + 1 }
      else level) { price := p, qty := 0, count := 0 } = levelOf (orders.map slotQuote) s p := by
  induction orders using reverseRecOn with
  | nil => rfl
  | append_singleton orders order ih =>
    rw [foldl_append, ih h.init, map_append, map_singleton, levelOf_concat,
      foldl_cons, h.next]
    rfl

theorem mem_foldl_addOrder (h : Summable orders) (hside : ∀ order ∈ orders, order.side = s) :
    ((orders.foldl addOrder []).map L2Level.price).Nodup ∧
      ∀ level, level ∈ orders.foldl addOrder [] ↔
        0 < level.count ∧ level = levelOf (orders.map slotQuote) s level.price := by
  induction orders using reverseRecOn with
  | nil =>
    refine ⟨nodup_nil, fun level => ⟨fun hmem => absurd hmem not_mem_nil, ?_⟩⟩
    rintro ⟨hcount, heq⟩
    rw [heq] at hcount
    exact absurd hcount (Nat.lt_irrefl 0)
  | append_singleton orders order ih =>
    obtain ⟨hnodup, hmem⟩ := ih h.init fun o ho => hside o (mem_append_left _ ho)
    have horder : order.side = s := hside order (by simp)
    set levels := orders.foldl addOrder [] with hlevels
    -- The level of the order's price grows, the others stay.
    have hother : ∀ p, p ≠ order.price → levelOf ((orders ++ [order]).map slotQuote) s p =
        levelOf (orders.map slotQuote) s p := by
      intro p hp
      rw [map_append, map_singleton, levelOf_concat, if_neg]
      exact fun hx => hp hx.2.symm
    have hown : levelOf ((orders ++ [order]).map slotQuote) s order.price =
        { levelOf (orders.map slotQuote) s order.price with
          qty := wrap64 ((levelOf (orders.map slotQuote) s order.price).qty + order.remainingQty)
          count := (levelOf (orders.map slotQuote) s order.price).count + 1 } := by
      rw [map_append, map_singleton, levelOf_concat, h.next]
      exact if_pos ⟨horder, rfl⟩
    rw [foldl_append, foldl_cons, foldl_nil, addOrder]
    by_cases hfound : (levels.any fun level => level.price = order.price) = true
    · rw [if_pos hfound]
      obtain ⟨found, hfoundMem, hprice⟩ := any_eq_true.1 hfound
      have hprice : found.price = order.price := of_decide_eq_true hprice
      have hfoundEq : levelOf (orders.map slotQuote) s order.price = found := by
        rw [← hprice, ← ((hmem found).1 hfoundMem).2]
      refine ⟨?_, fun level => ?_⟩
      · rw [map_map, map_congr_left (g := L2Level.price)]
        · exact hnodup
        · intro level _
          by_cases heq : level.price = order.price
          · simp [heq]
          · simp [heq]
      · rw [mem_map]
        constructor
        · rintro ⟨old, hold, rfl⟩
          obtain ⟨hcount, heq⟩ := (hmem old).1 hold
          by_cases hsame : old.price = order.price
          · rw [if_pos hsame]
            rw [hsame] at heq ⊢
            rw [hown, ← heq]
            simp [hsame]
          · rw [if_neg hsame, hother _ hsame]
            exact ⟨hcount, heq⟩
        · rintro ⟨hcount, heq⟩
          by_cases hsame : level.price = order.price
          · refine ⟨found, hfoundMem, ?_⟩
            rw [if_pos hprice, heq, hsame, hown, hfoundEq]
          · rw [hother _ hsame] at heq
            exact ⟨level, (hmem level).2 ⟨hcount, heq⟩, if_neg hsame⟩
    · rw [if_neg hfound]
      have habsent : ∀ level ∈ levels, level.price ≠ order.price := by
        intro level hlevel hsame
        exact hfound (any_eq_true.2 ⟨level, hlevel, decide_eq_true hsame⟩)
      have hempty : (levelOf (orders.map slotQuote) s order.price).count = 0 := by
        by_contra hne
        exact habsent _ ((hmem (levelOf (orders.map slotQuote) s order.price)).2
          ⟨Nat.pos_of_ne_zero hne, rfl⟩) rfl
      have hzero : (levelOf (orders.map slotQuote) s order.price).qty = 0 := by
        unfold levelOf at hempty ⊢
        rw [eq_nil_of_length_eq_zero hempty]
        rfl
      refine ⟨?_, fun level => ?_⟩
      · rw [map_append]
        refine nodup_append.2 ⟨hnodup, nodup_singleton _, ?_⟩
        rintro p hp p' hp' rfl
        obtain ⟨level, hlevel, rfl⟩ := mem_map.1 hp
        exact habsent level hlevel (mem_singleton.1 hp')
      · rw [mem_append, mem_singleton]
        constructor
        · rintro (hold | rfl)
          · obtain ⟨hcount, heq⟩ := (hmem level).1 hold
            rw [hother _ (habsent level hold)]
            exact ⟨hcount, heq⟩
          · refine ⟨Nat.one_pos, ?_⟩
            rw [hown, hempty, hzero]
            rfl
        · rintro ⟨hcount, heq⟩
          by_cases hsame : level.price = order.price
          · refine .inr ?_
            rw [heq, hsame, hown, hempty, hzero]
            rfl
          · rw [hother _ hsame] at heq
            exact .inl ((hmem level).2 ⟨hcount, heq⟩)

end Walk

/-! ## The book -/

theorem quotes_eq (b : Orderbook) :
    quotes b = (Buckets.contents b.compression.totalSlots b.levelOrders).map slotQuote := by
  unfold quotes Orderbook.resting Buckets.contents
  rw [map_flatMap, map_flatMap]
  refine flatMap_congr fun t _ => ?_
  rw [map_map]
  rfl

theorem summable_filter {b : Orderbook} {q : Nat → List Nat} {free : List Nat}
    (hq : Queued b q free) (htotal : b.exchange.totalQty ≤ i64Max) (c : OrderSlot → Bool) :
    Summable ((Buckets.contents b.compression.totalSlots b.levelOrders).filter c) := by
  have hpos : ∀ order ∈ Buckets.contents b.compression.totalSlots b.levelOrders,
      0 < order.remainingQty := by
    intro order horder
    exact quotes_pos hq (slotQuote order) (quotes_eq b ▸ mem_map_of_mem horder)
  refine ⟨fun order horder => hpos order (mem_of_mem_filter horder), ?_⟩
  rw [← sum_quotes hq, quotes_eq] at htotal
  refine le_trans ?_ htotal
  rw [map_map, map_map]
  have hsub := ((filter_sublist (p := c)
    (l := Buckets.contents b.compression.totalSlots b.levelOrders)).map (Quote.qty ∘ slotQuote))
  refine hsub.sum_le_sum fun x hx => ?_
  obtain ⟨order, horder, rfl⟩ := mem_map.1 hx
  exact (hpos order horder).le

namespace ShadowBook

variable {sh : ShadowBook} {q : Nat → List Nat} {free : List Nat}

def sideSlots (sh : ShadowBook) (s : Side) : List OrderSlot :=
  (Buckets.contents sh.book.compression.totalSlots sh.book.levelOrders).filter fun order =>
    order.side = s

theorem sideLevels_eq (hq : Queued sh.book q free) (s : Side) :
    sh.sideLevels s = (sh.sideSlots s).foldl addOrder [] := by
  unfold sideLevels sideSlots Buckets.contents
  generalize ([] : List L2Level) = levels
  induction range sh.book.compression.totalSlots generalizing levels with
  | nil => rfl
  | cons t ticks ih =>
    rw [foldl_cons, flatMap_cons, filter_append, foldl_append, ih]
    refine congrArg (fun x => foldl addOrder x _) ?_
    rw [foldl_filter]
    by_cases hcount : (sh.book.activeLevels t).count s = 0
    · -- A slot without an order of the side is passed over.
      rw [if_pos hcount, hq.repr.levelOrders_eq]
      rw [(hq.repr.level t).count, countP_eq_zero] at hcount
      have hnone : ((q t).map sh.book.slot).filter (fun order => order.side = s) = [] := by
        refine filter_eq_nil_iff.2 fun order ho => ?_
        obtain ⟨h, hh, rfl⟩ := mem_map.1 ho
        exact hcount h hh
      rw [← foldl_filter, hnone]
      rfl
    · rw [if_neg hcount]
      simp only [decide_eq_true_eq]

theorem levelOf_sideSlots (sh : ShadowBook) (s : Side) (p : Int) :
    levelOf ((sh.sideSlots s).map slotQuote) s p = levelOf (quotes sh.book) s p := by
  have hfilter : (sh.sideSlots s).map slotQuote = (quotes sh.book).filter fun x => x.side = s := by
    rw [quotes_eq, filter_map]
    rfl
  have hsame : ((quotes sh.book).filter fun x => x.side = s).filter
      (fun x => x.side = s ∧ x.price = p) =
        (quotes sh.book).filter fun x => x.side = s ∧ x.price = p := by
    rw [filter_filter]
    refine filter_congr fun x _ => ?_
    by_cases hx : x.side = s <;> simp [hx]
  unfold levelOf
  rw [hfilter, hsame]

/-- **The snapshot.**  The levels of a side are the ladder of the orders that rest. -/
theorem collectLevels_eq (hq : Queued sh.book q free) (htotal : sh.book.exchange.totalQty ≤ i64Max)
    (s : Side) (depth : Nat) :
    sh.collectLevels s depth = (ladder (quotes sh.book) s).take depth := by
  obtain ⟨hnodup, hmem⟩ := mem_foldl_addOrder
    (summable_filter hq htotal fun order => order.side = s)
    fun order horder => of_decide_eq_true (mem_filter.1 horder).2
  have hkeys : (((sh.sideSlots s).foldl addOrder []).map fun level => s.key level.price).Nodup := by
    have := hnodup.map (key_injective s)
    rwa [map_map] at this
  unfold collectLevels
  rw [sideLevels_eq hq]
  refine congrArg (take depth) ?_
  refine (Ladder.sorted_insertionSort hkeys).ext (sorted_ladder _ s) fun level => ?_
  rw [mem_insertionSort, mem_ladder, ← levelOf_sideSlots]
  exact hmem level

/-- **The level of a price.** -/
theorem levelAt_eq (hk : Kept sh.book q free) (htotal : sh.book.exchange.totalQty ≤ i64Max)
    {s : Side} {p : Int}
    (hlt : sh.book.compression.priceToIndex p < sh.book.compression.totalSlots) :
    sh.levelAt (sh.book.compression.priceToIndex p) s p = some (levelOf (quotes sh.book) s p) := by
  set tick := sh.book.compression.priceToIndex p with htick
  have hne : tick ≠ NONE := by
    have : sh.book.compression.totalSlots < 4294967296 := Nat.mod_lt _ (by decide)
    show tick ≠ 4294967295
    omega
  have hsum : Summable (sh.book.levelOrders tick) := by
    have hall := summable_filter hk.queued htotal fun order => order.tickIndex = tick
    rwa [Buckets.filter_contents hlt, filter_eq_self.2] at hall
    · intro order horder
      rw [hk.queued.repr.levelOrders_eq] at horder
      obtain ⟨h, hh, rfl⟩ := mem_map.1 horder
      exact decide_eq_true ((hk.queued.repr.level tick).tick h hh)
    · intro t ht order horder
      rw [hk.queued.repr.levelOrders_eq] at horder
      obtain ⟨h, hh, rfl⟩ := mem_map.1 horder
      simpa [(hk.queued.repr.level t).tick h hh] using ht
  unfold levelAt
  rw [if_neg hne, if_pos hlt, foldl_levelAt hsum]
  -- Orders of the price are in its slot and in no other.
  have hfilter : (quotes sh.book).filter (fun x => x.side = s ∧ x.price = p) =
      ((sh.book.levelOrders tick).map slotQuote).filter fun x => x.side = s ∧ x.price = p := by
    rw [quotes_eq, filter_map, filter_map, Buckets.filter_contents hlt]
    intro t ht order horder
    rw [hk.queued.repr.levelOrders_eq] at horder
    obtain ⟨h, hh, rfl⟩ := mem_map.1 horder
    have hindex := hk.indexed t (sh.book.entry h) (mem_map_of_mem hh)
    intro hx
    have hprice : (sh.book.slot h).price = p := (of_decide_eq_true hx).2
    have : sh.book.compression.priceToIndex (sh.book.slot h).price = t := hindex
    rw [hprice] at this
    exact ht this.symm
  unfold levelOf
  rw [hfilter]

end ShadowBook

end Rsx.Marketdata
