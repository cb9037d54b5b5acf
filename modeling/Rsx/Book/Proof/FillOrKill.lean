import Rsx.Book.Proof.Process

/-!
# The fill-or-kill check

`can_fill_fully` is a second walk over the book: slot by slot, nearest price first, and by arrival
inside a slot.  It answers whether the first `MAX_MAKERS_PER_ORDER` crossing makers of that walk
hold the quantity.  -/

namespace Rsx.Book

open PriceTime HasQty Buckets List CompressionMap Side

/-- What a walk that met the makers `l` knows: the answer, or the makers and quantity so far. -/
def tally (needed : Int) (l : List Entry) : Except Bool (Nat × Int) :=
  if needed ≤ total (l.take maxMakersPerOrder) then .error true
  else if maxMakersPerOrder < l.length then .error false
  else .ok (l.length, total l)

theorem tally_ok {needed : Int} {l : List Entry} (hlen : l.length ≤ maxMakersPerOrder)
    (hless : total l < needed) : tally needed l = .ok (l.length, total l) := by
  unfold tally
  rw [take_of_length_le hlen, if_neg (not_le.2 hless), if_neg (not_lt.2 hlen)]

theorem tally_append {needed : Int} {l l' : List Entry} {answer : Bool}
    (hpos : ∀ e ∈ l', 0 < qty e) (h : tally needed l = .error answer) :
    tally needed (l ++ l') = .error answer := by
  unfold tally at h ⊢
  split_ifs at h with hneeded hlen
  · obtain rfl := Except.error.inj h
    refine if_pos (hneeded.trans ?_)
    by_cases hle : l.length ≤ maxMakersPerOrder
    · rw [take_of_length_le hle]
      exact total_le_total_take hle hpos
    · rw [take_append_of_le_length (not_le.1 hle).le]
  · obtain rfl := Except.error.inj h
    rw [take_append_of_le_length hlen.le, if_neg hneeded, if_pos]
    rw [length_append]
    omega

namespace Orderbook

variable {b : Orderbook} {q : Nat → List Nat} {free : List Nat} {order : IncomingOrder} {t : Nat}
  {needed : Int}
  {l met : List Entry} {e : Entry} {side : Side}

theorem canFillOrders_eq (order : IncomingOrder) {l : List Nat}
    (hlen : met.length ≤ maxMakersPerOrder) (hless : total met < needed)
    (hmet : ∀ e ∈ met, 0 < qty e) (hpos : ∀ e ∈ l.map b.entry, 0 < qty e)
    (hfits : total met + total (l.map b.entry) ≤ i64Max) :
    canFillOrders order.side order.price needed (l.map b.slot) met.length (total met) =
      tally needed (met ++ (l.map b.entry).filter order.crosses) := by
  induction l generalizing met with
  | nil =>
    rw [map_nil, map_nil, filter_nil, append_nil, tally_ok hlen hless]
    rfl
  | cons h l ih =>
    have hh : 0 < qty (b.entry h) := hpos _ (by simp)
    have hposl : ∀ e ∈ l.map b.entry, 0 < qty e := fun e he =>
      hpos e (mem_cons_of_mem _ he)
    have hnonneg := total_nonneg hposl
    have hmetNonneg := total_nonneg hmet
    rw [map_cons, total_cons] at hfits
    rw [map_cons, map_cons]
    unfold canFillOrders
    by_cases hcross : order.crosses (b.entry h) = true
    · have hcross' : isCrossing (b.slot h).side (b.slot h).price order.side order.price = true :=
        hcross
      have hadd : wrap64 (total met + (b.slot h).remainingQty) = total (met ++ [b.entry h]) := by
        rw [total_append, total_cons, total_nil, add_zero]
        exact wrap64_of_nonneg (by show 0 ≤ total met + qty (b.entry h); omega)
          (by show total met + qty (b.entry h) ≤ i64Max; omega)
      rw [if_pos hcross', filter_cons_of_pos hcross, hadd]
      by_cases hcap : maxMakersPerOrder < met.length + 1
      · have hmax : met.length = maxMakersPerOrder := by omega
        rw [if_pos hcap]
        unfold tally
        rw [take_append_of_le_length hmax.ge, take_of_length_le hlen,
          if_neg (not_le.2 hless), if_pos]
        rw [length_append, length_cons]
        omega
      · have hlen' : (met ++ [b.entry h]).length ≤ maxMakersPerOrder := by
          rw [length_append, length_singleton]
          omega
        rw [if_neg hcap]
        rw [append_cons met (b.entry h) ((l.map b.entry).filter order.crosses)]
        by_cases henough : needed ≤ total (met ++ [b.entry h])
        · have hknown : tally needed (met ++ [b.entry h]) = .error true := by
            unfold tally
            rw [take_of_length_le hlen', if_pos henough]
          rw [if_pos henough, tally_append (fun e he => hposl e (mem_of_mem_filter he)) hknown]
        · have hcount : met.length + 1 = (met ++ [b.entry h]).length := by simp
          rw [if_neg henough, hcount]
          refine ih hlen' (not_le.1 henough) ?_ hposl ?_
          · intro e he
            rcases mem_append.1 he with he | he
            · exact hmet e he
            · exact mem_singleton.1 he ▸ hh
          · rw [total_append, total_cons, total_nil]
            omega
    · have hcross' : ¬ isCrossing (b.slot h).side (b.slot h).price order.side order.price = true :=
        hcross
      rw [if_neg hcross', filter_cons_of_neg hcross]
      exact ih hlen hless hmet hposl (by omega)

theorem bestPrice_eq (s : Side) (orders : List OrderSlot) (top : Int × Int) :
    (orders.foldl (fun best order =>
      if order.side = s ∧ s.improves order.price best then order.price else best) top.1) =
      (orders.foldl (topStep s) top).1 := by
  induction orders generalizing top with
  | nil => rfl
  | cons order orders ih =>
    rw [foldl_cons, foldl_cons, ← ih]
    unfold topStep
    by_cases hside : order.side = s
    · by_cases himproves : s.improves order.price top.1 = true
      · rw [if_pos ⟨hside, himproves⟩, if_pos hside, if_pos himproves]
      · rw [if_neg (fun h => himproves h.2)]
        split_ifs <;> rfl
    · rw [if_neg (fun h => hside h.1), if_neg hside]

theorem Queued.within_bestPrice (hq : Queued b q free) (order : IncomingOrder)
    (hfits : ∀ e ∈ b.view q t, e.order.side = order.side.opposite →
      order.side.opposite.key e.order.price ≤ order.side.opposite.key order.side.opposite.worstPx)
    (hocc : ∃ e ∈ b.view q t, e.order.side = order.side.opposite) :
    order.side.within (bestPrice order.side.opposite (b.levelOrders t)) order.price = true ↔
      (b.view q t).filter order.crosses ≠ [] := by
  have htop := hq.topped order.side.opposite t
  set s := order.side.opposite with hs
  have heq : bestPrice s (b.levelOrders t) =
      ((b.levelOrders t).foldl (topStep s) (s.worstPx, 0)).1 := bestPrice_eq s _ (s.worstPx, 0)
  rw [heq, within_iff]
  set top := (b.levelOrders t).foldl (topStep s) (s.worstPx, 0) with htopEq
  -- The best price is the price of an order of the side.
  have hattained : ∃ e ∈ b.view q t, e.order.side = s ∧ e.order.price = top.1 := by
    rcases htop.attained with hworst | hattained
    · obtain ⟨e, he, hside⟩ := hocc
      refine ⟨e, he, hside, key_injective s (le_antisymm ?_ (htop.best e he hside))⟩
      rw [hworst]
      exact hfits e he hside
    · exact hattained
  obtain ⟨e, he, hside, hprice⟩ := hattained
  constructor
  · intro hle hnil
    have hcross : order.crosses e = true := selects_iff.2 ⟨hside, hprice ▸ hle⟩
    exact filter_eq_nil_iff.1 hnil e he hcross
  · intro hne
    obtain ⟨e', he'⟩ := exists_mem_of_ne_nil _ hne
    obtain ⟨hmem, hcross⟩ := mem_filter.1 he'
    obtain ⟨hside', hle⟩ := selects_iff.1 hcross
    exact (htop.best e' hmem hside').trans hle

theorem sumQty_eq {l : List Nat} (hpos : ∀ e ∈ l.map b.entry, 0 < qty e)
    (hfits : total (l.map b.entry) ≤ i64Max) (n : Nat) :
    sumQty (l.map b.slot) n = total ((l.map b.entry).take n) := by
  have hfold : ∀ (l : List Nat) (sum : Int), (∀ e ∈ l.map b.entry, 0 < qty e) → 0 ≤ sum →
      sum + total (l.map b.entry) ≤ i64Max →
      (l.map b.slot).foldl (fun total order => wrap64 (total + order.remainingQty)) sum =
        sum + total (l.map b.entry) := by
    intro l
    induction l with
    | nil => intro sum _ _ _; exact (add_zero sum).symm
    | cons h l ih =>
      intro sum hpos hsum hfits
      have hh : 0 < qty (b.entry h) := hpos _ (by simp)
      have hposl : ∀ e ∈ l.map b.entry, 0 < qty e := fun e he =>
        hpos e (mem_cons_of_mem _ he)
      have hnonneg := total_nonneg hposl
      rw [map_cons, total_cons] at hfits
      have hadd : wrap64 (sum + (b.slot h).remainingQty) = sum + qty (b.entry h) :=
        wrap64_of_nonneg (by show 0 ≤ sum + qty (b.entry h); omega)
          (by show sum + qty (b.entry h) ≤ i64Max; omega)
      rw [map_cons, map_cons, foldl_cons, ih _ hposl (by omega) (by omega), total_cons]
      omega
  have htake : ∀ e ∈ (l.take n).map b.entry, 0 < qty e := by
    intro e he
    rw [map_take] at he
    exact hpos e (mem_of_mem_take he)
  have hle : total ((l.take n).map b.entry) ≤ i64Max := by
    have hsplit := congrArg total (take_append_drop n (l.map b.entry))
    have hdrop := total_nonneg fun e he => hpos e (mem_of_mem_drop (i := n) he)
    rw [total_append] at hsplit
    rw [map_take]
    omega
  unfold sumQty
  rw [← map_take, hfold _ 0 htake le_rfl (by omega), zero_add, map_take]

theorem Queued.mem_orders (hq : Queued b q free) (he : e ∈ b.view q t) :
    e.order ∈ b.exchange.orders e.order.side :=
  mem_arrange.2 (mem_filter.2 ⟨hq.mem_resting.2 ⟨t, e, he, rfl⟩, decide_eq_true rfl⟩)

theorem Sound.one_side (hs : Sound b q free) {t u : Nat} {e' : Entry} (he : e ∈ b.view q t)
    (he' : e' ∈ b.view q u) (hprice : e.order.price = e'.order.price) :
    e.order.side = e'.order.side := by
  have hmem := hs.queued.mem_orders he
  have hmem' := hs.queued.mem_orders he'
  cases hside : e.order.side <;> cases hside' : e'.order.side <;> rw [hside] at hmem <;>
    rw [hside'] at hmem'
  · have := hs.uncrossed _ hmem _ hmem'
    omega
  · have := hs.uncrossed _ hmem' _ hmem
    omega

theorem Sound.zone0_slot (hs : Sound b q free) (ht : t < b.compression.zoneSlots 0)
    (hocc : ∃ e ∈ b.view q t, e.order.side = order.side.opposite) :
    ((b.view q t).filter order.crosses =
      if order.side.within (b.orders.get (b.activeLevels t).head).price order.price
      then b.view q t else []) ∧
    (b.activeLevels t).count order.side.opposite = (b.view q t).length ∧
    (b.activeLevels t).totalQty = total (b.view q t) := by
  obtain ⟨e, he, hside⟩ := hocc
  have hlevel := hs.queued.repr.level t
  have hsame : ∀ e' ∈ b.view q t, e'.order.side = order.side.opposite ∧
      e'.order.price = e.order.price := by
    intro e' he'
    have hprice := hs.placed.one_price hs.exact ht he' he
    exact ⟨(hs.one_side he' he hprice).trans hside, hprice⟩
  have hhead : (b.orders.get (b.activeLevels t).head).price = e.order.price := by
    rw [hlevel.head]
    obtain ⟨h, hh, -⟩ := mem_map.1 he
    cases hq : q t with
    | nil => rw [hq] at hh; exact absurd hh not_mem_nil
    | cons h₀ =>
      refine (hsame (b.entry h₀) ?_).2
      unfold view
      rw [hq]
      exact mem_cons_self
  refine ⟨?_, ?_, ?_⟩
  · rw [hhead]
    by_cases hin : order.side.within e.order.price order.price = true
    · rw [if_pos hin, filter_eq_self]
      intro e' he'
      refine selects_iff.2 ⟨(hsame e' he').1, ?_⟩
      rw [(hsame e' he').2]
      exact within_iff.1 hin
    · rw [if_neg hin, filter_eq_nil_iff]
      intro e' he' hcross
      refine hin (within_iff.2 ?_)
      rw [← (hsame e' he').2]
      exact (selects_iff.1 hcross).2
  · rw [hlevel.count, view, length_map, countP_eq_length]
    intro h hh
    exact decide_eq_true (hsame (b.entry h) (mem_map_of_mem hh)).1
  · rw [hlevel.totalQty, queueQty_view]

theorem Sound.canFillLevel_eq (hs : Sound b q free) (order : IncomingOrder)
    (hocc : ∃ e ∈ b.view q t, e.order.side = order.side.opposite)
    (hlen : met.length ≤ maxMakersPerOrder) (hless : total met < needed)
    (hmet : ∀ e ∈ met, 0 < qty e) (hfits : total met + total (b.view q t) ≤ i64Max) :
    b.canFillLevel order.side order.price needed t met.length (total met) =
      if (b.view q t).filter order.crosses = [] then .error false
      else tally needed (met ++ (b.view q t).filter order.crosses) := by
  have hpos := hs.queued.view_pos (t := t)
  have hnonneg := total_nonneg hmet
  have hnonneg' := total_nonneg hpos
  unfold canFillLevel
  simp only
  by_cases ht : t < b.compression.zoneSlots 0
  · obtain ⟨hfilter, hcount, htotal⟩ := hs.zone0_slot ht hocc
    rw [if_pos ht, hcount, htotal]
    by_cases hin : order.side.within (b.orders.get (b.activeLevels t).head).price order.price = true
    · have hne : b.view q t ≠ [] := by
        obtain ⟨e, he, -⟩ := hocc
        exact ne_nil_of_mem he
      rw [if_neg (not_not.2 hin), hfilter, if_pos hin, if_neg hne]
      by_cases hcap : maxMakersPerOrder < met.length + (b.view q t).length
      · have hsum : sumQty (b.levelOrders t) (maxMakersPerOrder - met.length) =
            total ((b.view q t).take (maxMakersPerOrder - met.length)) := by
          rw [hs.queued.repr.levelOrders_eq]
          exact sumQty_eq hpos (by unfold view at hfits; omega) _
        have htake := total_nonneg fun e he =>
          hpos e (mem_of_mem_take (i := maxMakersPerOrder - met.length) he)
        have hdrop := total_nonneg fun e he =>
          hpos e (mem_of_mem_drop (i := maxMakersPerOrder - met.length) he)
        have hsplit := congrArg total
          (take_append_drop (maxMakersPerOrder - met.length) (b.view q t))
        rw [total_append] at hsplit
        rw [if_pos hcap, hsum, wrap64_of_nonneg (by omega) (by omega), ← total_append]
        unfold tally
        rw [take_append, take_of_length_le hlen, length_append]
        by_cases henough : needed ≤
            total (met ++ (b.view q t).take (maxMakersPerOrder - met.length))
        · rw [if_pos henough, decide_eq_true henough]
        · rw [if_neg henough, if_pos hcap, decide_eq_false henough]
      · rw [if_neg hcap, wrap64_of_nonneg (by omega) hfits, ← total_append]
        unfold tally
        rw [take_of_length_le (by rw [length_append]; omega), length_append,
          if_neg hcap]
    · rw [if_pos hin, hfilter, if_neg hin, if_pos rfl]
  · have hwithin := hs.queued.within_bestPrice order (t := t) (fun e he _ =>
      key_worstPx _ (by have := (hs.placed t e he).pos; unfold i64Min; omega)
        (hs.placed t e he).fits) hocc
    have horders := canFillOrders_eq order hlen hless hmet hpos hfits
    rw [if_neg ht, hs.queued.repr.levelOrders_eq, horders]
    rw [hs.queued.repr.levelOrders_eq] at hwithin
    by_cases hnil : (b.view q t).filter order.crosses = []
    · have hout : ¬ order.side.within (bestPrice order.side.opposite ((q t).map b.slot))
          order.price = true := fun h => hwithin.1 h hnil
      rw [if_pos hnil]
      unfold view at hnil
      rw [hnil, append_nil, tally_ok hlen hless]
      exact if_pos hout
    · rw [if_neg hnil]
      unfold view
      cases tally needed (met ++ ((q t).map b.entry).filter order.crosses) with
      | error => rfl
      | ok => exact if_neg (not_not.2 (hwithin.2 hnil))

def canFillTicks (b : Orderbook) (side : Side) (limit needed : Int) :
    List Nat → Nat → Int → Except Bool (Nat × Int)
  | [], makers, sum => .ok (makers, sum)
  | tick :: ticks, makers, sum =>
    match b.canFillLevel side limit needed tick makers sum with
    | .error answer => .error answer
    | .ok (makers, sum) => canFillTicks b side limit needed ticks makers sum

/-- The slots of a region, best price of side `s` first. -/
def ticksOf (s : Side) (region : Nat × Nat) : List Nat :=
  match s with
  | .buy => (slotsOf region).reverse
  | .sell => slotsOf region

theorem filter_of_find? {α : Type*} {p : α → Bool} {l x y : List α} {a : α}
    (hsplit : l = x ++ a :: y) (hnot : a ∉ x) (hfind : l.find? p = some a) :
    l.filter p = a :: y.filter p := by
  have hx : x.find? p = none := by
    cases hx : x.find? p with
    | none => rfl
    | some =>
      rw [hsplit, find?_append, hx] at hfind
      cases hfind
      exact absurd (mem_of_find?_eq_some hx) hnot
  have hnil : x.filter p = [] := filter_eq_nil_iff.2 (find?_eq_none.1 hx)
  rw [hsplit, filter_append, hnil, nil_append, filter_cons_of_pos (find?_some hfind)]

theorem slotsOf_split {lo hi : Nat} (hlo : lo ≤ t) (hhi : t < hi) : slotsOf (lo, hi) =
      slotsOf (lo, t) ++ t :: slotsOf (t + 1, hi) := by
  unfold slotsOf
  have hlen : hi - lo = (t - lo) + (hi - t) := by omega
  have hsucc : hi - t = (hi - (t + 1)) + 1 := by omega
  have hstart : lo + 1 * (t - lo) = t := by omega
  rw [hlen, ← range'_append, hstart, hsucc, range'_succ]

theorem nextOccupied_spec {s : Side} (hocc : (b.occ s).Wf) (region : Nat × Nat) :
    (b.nextOccupied s region = none ∧ (ticksOf s region).filter (b.occ s).test = []) ∨
      ∃ t region', b.nextOccupied s region = some (t, region') ∧
        (ticksOf s region).filter (b.occ s).test = t :: (ticksOf s region').filter (b.occ s).test ∧
        (ticksOf s region').length < (ticksOf s region).length := by
  obtain ⟨lo, hi⟩ := region
  have hsearch : b.nextOccupied s (lo, hi) = ((ticksOf s (lo, hi)).find? (b.occ s).test).map
      fun t => (t, match s with | .sell => (t + 1, hi) | .buy => (lo, t)) := by
    cases s with
    | buy =>
      unfold nextOccupied
      simp only [hocc.findLastIn_eq]
      rfl
    | sell =>
      unfold nextOccupied
      simp only [hocc.findFirstIn_eq]
      rfl
  cases hfind : (ticksOf s (lo, hi)).find? (b.occ s).test with
  | none =>
    rw [hsearch, hfind]
    exact .inl ⟨rfl, filter_eq_nil_iff.2 (find?_eq_none.1 hfind)⟩
  | some t =>
    have hmem := mem_of_find?_eq_some hfind
    have hbounds : lo ≤ t ∧ t < hi := by
      cases s with
      | buy => exact mem_slotsOf.1 (mem_reverse.1 hmem)
      | sell => exact mem_slotsOf.1 hmem
    have hsplit := slotsOf_split hbounds.1 hbounds.2
    refine .inr ⟨t, _, by rw [hsearch, hfind]; rfl, ?_⟩
    cases s with
    | buy =>
      have hticks : ticksOf .buy (lo, hi) =
          (slotsOf (t + 1, hi)).reverse ++ t :: ticksOf .buy (lo, t) := by
        unfold ticksOf
        rw [hsplit]
        simp
      refine ⟨filter_of_find? hticks (fun h => ?_) hfind, ?_⟩
      · have := (mem_slotsOf.1 (mem_reverse.1 h)).1
        omega
      · show (ticksOf .buy (lo, t)).length < _
        rw [hticks, length_append, length_cons]
        omega
    | sell =>
      have hticks : ticksOf .sell (lo, hi) =
          slotsOf (lo, t) ++ t :: ticksOf .sell (t + 1, hi) := hsplit
      refine ⟨filter_of_find? hticks (fun h => ?_) hfind, ?_⟩
      · have := (mem_slotsOf.1 h).2
        omega
      · show (ticksOf .sell (t + 1, hi)).length < _
        rw [hticks, length_append, length_cons]
        omega

theorem canFillRegion_eq (hocc : (b.occ side.opposite).Wf) (limit needed : Int)
    {fuel : Nat} {region : Nat × Nat} (hfuel : (ticksOf side.opposite region).length < fuel)
    (makers : Nat) (sum : Int) :
    b.canFillRegion side limit needed fuel region makers sum =
      some (b.canFillTicks side limit needed
        ((ticksOf side.opposite region).filter (b.occ side.opposite).test) makers sum) := by
  induction fuel generalizing region makers sum with
  | zero => omega
  | succ fuel ih =>
    unfold canFillRegion
    rcases nextOccupied_spec hocc region with ⟨hnone, hnil⟩ | ⟨t, region', hnext, hcons, hlt⟩
    · simp only [hnone, hnil]
      rfl
    · simp only [hnext, hcons, canFillTicks]
      cases b.canFillLevel side limit needed t makers sum with
      | error => rfl
      | ok => exact ih (by omega) _ _

theorem canFillTicks_append (side : Side) (limit needed : Int) (ticks ticks' : List Nat)
    (makers : Nat) (sum : Int) :
    b.canFillTicks side limit needed (ticks ++ ticks') makers sum =
      match b.canFillTicks side limit needed ticks makers sum with
      | .error answer => .error answer
      | .ok (makers, sum) => b.canFillTicks side limit needed ticks' makers sum := by
  induction ticks generalizing makers sum with
  | nil => rfl
  | cons tick ticks ih =>
    simp only [cons_append, canFillTicks]
    cases b.canFillLevel side limit needed tick makers sum with
    | error => rfl
    | ok => exact ih _ _

def answer : Except Bool (Nat × Int) → Bool
  | .error answer => answer
  | .ok _ => false

theorem canFillRegions_eq (hocc : (b.occ side.opposite).Wf) (limit needed : Int)
    {regions : List (Nat × Nat)} (hregions : ∀ r ∈ regions, r.2 ≤ b.compression.totalSlots)
    (makers : Nat) (sum : Int) :
    b.canFillRegions side limit needed regions makers sum =
      some (answer (b.canFillTicks side limit needed
        ((regions.flatMap (ticksOf side.opposite)).filter (b.occ side.opposite).test)
        makers sum)) := by
  induction regions generalizing makers sum with
  | nil => rfl
  | cons region regions ih =>
    have hle := hregions region mem_cons_self
    have hlen : (ticksOf side.opposite region).length < b.compression.totalSlots + 1 := by
      have hslots : (slotsOf region).length = region.2 - region.1 :=
        length_range'
      unfold ticksOf
      cases side.opposite with
      | buy => simp only [length_reverse]; omega
      | sell => simp only; omega
    have ih' := ih fun r hr => hregions r (mem_cons_of_mem _ hr)
    show (b.canFillRegion side limit needed (b.compression.totalSlots + 1) region makers
      sum).bind _ = _
    rw [canFillRegion_eq hocc limit needed hlen, flatMap_cons, filter_append,
      canFillTicks_append]
    cases b.canFillTicks side limit needed
        ((ticksOf side.opposite region).filter (b.occ side.opposite).test) makers sum with
    | error => rfl
    | ok => exact ih' _ _

theorem tally_answer {a : Bool} (h : tally needed l = .error a) :
    a = decide (needed ≤ total (l.take maxMakersPerOrder)) := by
  unfold tally at h
  split_ifs at h with hneeded hlen
  · rw [decide_eq_true hneeded]
    exact (Except.error.inj h).symm
  · rw [decide_eq_false hneeded]
    exact (Except.error.inj h).symm

theorem tally_eq_ok {counted : Nat × Int} (h : tally needed l = .ok counted) :
    l.length ≤ maxMakersPerOrder ∧ total l < needed ∧ counted = (l.length, total l) := by
  unfold tally at h
  split_ifs at h with hneeded hlen
  rw [take_of_length_le (not_lt.1 hlen)] at hneeded
  exact ⟨not_lt.1 hlen, not_le.1 hneeded, (Except.ok.inj h).symm⟩

theorem Sound.canFillTicks_eq (hs : Sound b q free) (order : IncomingOrder) (needed : Int)
    (ticks : List Nat) (met : List Entry)
    (hocc : ∀ t ∈ ticks, ∃ e ∈ b.view q t, e.order.side = order.side.opposite)
    (hsorted : ticks.Pairwise (b.compression.Before order.side.opposite))
    (hlen : met.length ≤ maxMakersPerOrder) (hless : total met < needed)
    (hmet : ∀ e ∈ met, 0 < qty e)
    (hfits : total met + total (ticks.flatMap (b.view q)) ≤ i64Max) :
    answer (b.canFillTicks order.side order.price needed ticks met.length (total met)) =
      decide (needed ≤ total
        ((met ++ ticks.flatMap fun t => (b.view q t).filter order.crosses).take
          maxMakersPerOrder)) := by
  induction ticks generalizing met with
  | nil =>
    rw [flatMap_nil, append_nil, take_of_length_le hlen, decide_eq_false (not_le.2 hless)]
    rfl
  | cons t ticks ih =>
    obtain ⟨hbefore, hsorted'⟩ := pairwise_cons.1 hsorted
    have hoccT := hocc t mem_cons_self
    have hpos := hs.queued.view_pos (t := t)
    have hposRest : ∀ e ∈ ticks.flatMap (b.view q), 0 < qty e := by
      intro e he
      obtain ⟨u, -, he⟩ := mem_flatMap.1 he
      exact hs.queued.view_pos e he
    have hnonneg := total_nonneg hposRest
    rw [flatMap_cons, total_append] at hfits
    rw [flatMap_cons, canFillTicks, hs.canFillLevel_eq order hoccT hlen hless hmet (by omega)]
    by_cases hnil : (b.view q t).filter order.crosses = []
    · -- No maker of this slot crosses, so none of the later slots does.
      have hrest : (ticks.flatMap fun u => (b.view q u).filter order.crosses) = [] := by
        rw [flatMap_eq_nil_iff]
        intro u hu
        rw [filter_eq_nil_iff]
        intro e' he' hcross
        obtain ⟨e, he, hside⟩ := hoccT
        have hat := hs.placed t e he
        have hat' := hs.placed u e' he'
        have hlt := hbefore u hu _ _ hat.regular hat'.regular hat.index hat'.index
        refine filter_eq_nil_iff.1 hnil e he (selects_iff.2 ⟨hside, ?_⟩)
        exact hlt.le.trans (selects_iff.1 hcross).2
      rw [if_pos hnil, hnil, hrest, append_nil, append_nil,
        take_of_length_le hlen, decide_eq_false (not_le.2 hless)]
      rfl
    · rw [if_neg hnil, ← append_assoc]
      have hposC : ∀ e ∈ ticks.flatMap (fun u => (b.view q u).filter order.crosses), 0 < qty e := by
        intro e he
        obtain ⟨u, -, he⟩ := mem_flatMap.1 he
        exact hs.queued.view_pos e (mem_of_mem_filter he)
      cases htally : tally needed (met ++ (b.view q t).filter order.crosses) with
      | error => exact tally_answer (tally_append hposC htally)
      | ok =>
        obtain ⟨hlen', hless', rfl⟩ := tally_eq_ok htally
        refine ih _ (fun u hu => hocc u (mem_cons_of_mem _ hu)) hsorted' hlen' hless' ?_ ?_
        · intro e he
          rcases mem_append.1 he with he | he
          · exact hmet e he
          · exact hpos e (mem_of_mem_filter he)
        · have hle := total_filter_le hpos order.crosses
          rw [total_append]
          omega

/-- The crossing makers in the order in which the fill-or-kill check meets them: slot by slot from
the best price, and by arrival inside a slot. -/
def walked (b : Orderbook) (order : IncomingOrder) : List Resting :=
  (((b.compression.slotsBest order.side.opposite).flatMap b.levelOrders).map
    OrderSlot.resting).filter fun o => isCrossing o.side o.price order.side order.price

def walkFits (b : Orderbook) (order : IncomingOrder) : Bool :=
  order.remainingQty ≤ total ((b.walked order).take maxMakersPerOrder)

theorem Queued.walked_eq (hq : Queued b q free) (order : IncomingOrder) :
    b.walked order = (((b.compression.slotsBest order.side.opposite).flatMap (b.view q)).filter
      order.crosses).map Entry.order := by
  have hlevels : ((b.compression.slotsBest order.side.opposite).flatMap b.levelOrders).map
      OrderSlot.resting =
        ((b.compression.slotsBest order.side.opposite).flatMap (b.view q)).map Entry.order := by
    rw [map_flatMap, map_flatMap]
    refine flatMap_congr fun t _ => ?_
    rw [hq.repr.levelOrders_eq, view, map_map, map_map]
    rfl
  unfold walked
  rw [hlevels, filter_map]
  rfl

theorem Standing.slotsBest_perm (hst : Standing b q free) (s : Side) :
    ((b.compression.slotsBest s).flatMap (b.view q)).Perm (b.entries q) := by
  have hhandles : (contents b.compression.totalSlots q).Nodup := by
    have hnodup := (hst.queued.repr.cover.nodup_iff).2 nodup_range
    exact (nodup_append.1 (nodup_append.1 hnodup).1).1
  have hinj : ∀ {l : List Nat}, l.Nodup → (l.map b.entry).Nodup := fun hl =>
    hl.map fun h h' heq => congrArg Entry.handle heq
  have hview : ∀ t, (b.view q t).Nodup := by
    intro t
    by_cases ht : t < b.compression.totalSlots
    · exact hinj (nodup_bucket hhandles ht)
    · unfold view
      rw [hst.queued.repr.outside t (not_lt.1 ht)]
      exact nodup_nil
  have hentries : (b.entries q).Nodup := by
    have := hinj hhandles
    rwa [contents, map_flatMap] at this
  have hslots : ((b.compression.slotsBest s).flatMap (b.view q)).Nodup := by
    refine nodup_flatMap.2 ⟨fun t _ => hview t, ?_⟩
    refine (slotsBest_sorted hst.exact s).imp ?_
    intro t u hbefore e he he'
    have hat := hst.placed t e he
    have hat' := hst.placed u e he'
    exact lt_irrefl _ (hbefore _ _ hat.regular hat'.regular hat.index hat'.index)
  refine (perm_ext_iff_of_nodup hslots hentries).2 fun e => ?_
  rw [mem_flatMap]
  constructor
  · rintro ⟨t, -, he⟩
    obtain ⟨_, hh, -⟩ := mem_map.1 he
    exact mem_contents.2 ⟨t, hst.queued.repr.lt_total hh, he⟩
  · intro he
    obtain ⟨t, -, he⟩ := mem_contents.1 he
    have hat := hst.placed t e he
    exact ⟨t, hat.index ▸ mem_slotsBest hst.exact hat.regular s, he⟩

theorem Standing.walked_perm (hst : Standing b q free) (order : IncomingOrder) :
    (b.walked order).Perm (b.exchange.makers order) := by
  rw [hst.queued.walked_eq, hst.queued.makers_eq]
  refine Perm.map _ (((hst.slotsBest_perm order.side.opposite).filter order.crosses).trans ?_)
  exact (perm_arrange _ _).symm

theorem Standing.canFillFully_walk (hst : Standing b q free) (side : Side) (limit needed : Int) :
    b.canFillFully side limit needed = some (answer (b.canFillTicks side limit needed
        ((b.compression.slotsBest side.opposite).filter (b.occ side.opposite).test) 0 0)) := by
  have hbound : ∀ r ∈ b.priceAsc, r.2 ≤ b.compression.totalSlots := by
    intro r hr
    rw [hst.asc, buildPriceAsc_eq] at hr
    obtain ⟨k, hk, rfl⟩ := mem_map.1 (mem_filter.1 hr).1
    rw [mem_range] at hk
    refine (hst.exact.region_subset k).2.trans (hst.exact.base_add_slots_le_total ?_)
    unfold zoneOfRank
    split_ifs <;> omega
  have hocc := hst.queued.repr.occWf side.opposite
  unfold canFillFully
  cases side with
  | buy =>
    rw [canFillRegions_eq hocc _ _ hbound, hst.asc]
    rfl
  | sell =>
    rw [canFillRegions_eq hocc _ _ fun r hr => hbound r (mem_reverse.1 hr), hst.asc]
    unfold slotsBest slotsAsc
    rw [reverse_flatMap]
    rfl

/-- **The fill-or-kill check always answers**: whether the first makers of its own walk hold the
quantity. -/
theorem Sound.canFillFully_eq (hs : Sound b q free) (hqty : 0 < order.remainingQty)
    (hfits : b.exchange.totalQty ≤ i64Max) :
    b.canFillFully order.side order.price order.remainingQty = some (b.walkFits order) := by
  set s := order.side.opposite with hside
  -- Slots without an order of the side hold no maker.
  have hskip : (((b.compression.slotsBest s).filter (b.occ s).test).flatMap fun t =>
      (b.view q t).filter order.crosses) =
      ((b.compression.slotsBest s).flatMap (b.view q)).filter order.crosses := by
    rw [filter_flatMap]
    generalize b.compression.slotsBest s = ticks
    induction ticks with
    | nil => rfl
    | cons t ticks ih =>
      by_cases htest : (b.occ s).test t = true
      · rw [filter_cons_of_pos htest, flatMap_cons, flatMap_cons, ih]
      · have hnil : (b.view q t).filter order.crosses = [] := by
          rw [filter_eq_nil_iff]
          intro e he hcross
          exact htest ((hs.queued.occTest s t).2 ⟨e, he, (selects_iff.1 hcross).1⟩)
        rw [filter_cons_of_neg htest, flatMap_cons, hnil, ih, nil_append]
  have hsum : total (((b.compression.slotsBest s).filter (b.occ s).test).flatMap (b.view q)) ≤
      i64Max := by
    have hparts := total_perm ((filter_append_perm (b.occ s).test
      (b.compression.slotsBest s)).flatMap_right (b.view q))
    have hall := total_perm (hs.slotsBest_perm s)
    have hnonneg : 0 ≤ total (((b.compression.slotsBest s).filter
        fun t => !(b.occ s).test t).flatMap (b.view q)) := by
      refine total_nonneg fun e he => ?_
      obtain ⟨_, -, he⟩ := mem_flatMap.1 he
      exact hs.queued.view_pos e he
    rw [flatMap_append, total_append, hall, ← hs.queued.totalQty_exchange] at hparts
    omega
  have hticks := hs.canFillTicks_eq order order.remainingQty
    ((b.compression.slotsBest s).filter (b.occ s).test) []
    (fun t ht => (hs.queued.occTest s t).1 (mem_filter.1 ht).2)
    ((slotsBest_sorted hs.exact s).filter _) (Nat.zero_le _) hqty
    (by simp) (by rw [total_nil]; omega)
  rw [hs.canFillFully_walk, walkFits, hs.queued.walked_eq, ← map_take, total_map_order,
    ← hskip]
  exact congrArg some hticks

end Orderbook

end Rsx.Book
