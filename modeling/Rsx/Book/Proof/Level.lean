import Rsx.Book.Proof.Fill

/-!
# Matching one slot

Whatever strategy `match_at_level` takes, the crossing makers of the slot are consumed best price
first and by arrival within a price, up to the order in which the fills are reported.
-/

namespace Rsx.Book

open Function PriceTime HasQty List IncomingOrder

/-- Priority of a maker for a taker: the smaller, the better. -/
def IncomingOrder.makerKey (taker : IncomingOrder) (e : Entry) : Int :=
  taker.side.opposite.key e.order.price

def IncomingOrder.crosses (taker : IncomingOrder) (e : Entry) : Bool :=
  Orderbook.selects taker.side taker.price e

def IncomingOrder.crossing (taker : IncomingOrder) (l : List Entry) : List Entry :=
  arrange taker.makerKey (l.filter taker.crosses)

def IncomingOrder.bestGroup (taker : IncomingOrder) (best : Int) (e : Entry) : Bool :=
  taker.crosses e && decide (taker.makerKey e = taker.side.opposite.key best)

namespace Orderbook

variable {b b' : Orderbook} {q : Nat → List Nat} {free : List Nat} {t : Nat}
  {taker : IncomingOrder}
  {limit r : Int} {e : Entry} {l : List Entry} {c : Crossing} {k : Nat}

theorem selects_iff {side : Side} : selects side limit e = true ↔ e.order.side = side.opposite ∧
      side.opposite.key e.order.price ≤ side.opposite.key limit := by
  rw [selects, isCrossing, Bool.and_eq_true, decide_eq_true_eq, Side.ne_iff_eq_opposite,
    Side.within_iff]

theorem selects_best (hbest : taker.side.opposite.key limit ≤ taker.side.opposite.key taker.price)
    (hmin : ∀ e ∈ l, taker.crosses e → taker.side.opposite.key limit ≤ taker.makerKey e)
    (he : e ∈ l) :
    selects taker.side limit e =
      (taker.crosses e && decide (taker.makerKey e = taker.side.opposite.key limit)) := by
  rw [Bool.eq_iff_iff, Bool.and_eq_true, decide_eq_true_eq]
  constructor
  · intro hsel
    have hcross : taker.crosses e := by
      rw [selects_iff] at hsel
      exact selects_iff.2 ⟨hsel.1, hsel.2.trans hbest⟩
    exact ⟨hcross, le_antisymm (selects_iff.1 hsel).2 (hmin e he hcross)⟩
  · rintro ⟨hcross, hkey⟩
    exact selects_iff.2 ⟨(selects_iff.1 hcross).1, hkey.le⟩

/-- What matching the slot `t` gives: the outcome `o` of consuming its crossing makers. -/
structure LevelMatched (taker : IncomingOrder) (b : Orderbook) (q : Nat → List Nat) (t : Nat)
    (o : Outcome Entry) (b' : Orderbook) : Prop where
  queued : ∃ q' free' l', Queued b' q' free' ∧ b'.view q' = update (b.view q) t l' ∧
    taker.crossing l' = o.rest ∧
    ∀ c : Entry → Bool, (∀ e, c e → ¬ taker.crosses e) → (∀ e x, c (setQty e x) = c e) →
      l'.filter c = (b.view q t).filter c
  filled : ∃ fills, fills.Perm o.fills ∧ Filled taker b fills b'
  room : 0 < o.left → b'.Room o.budget

theorem Queued.view_pos (hq : Queued b q free) : ∀ e ∈ b.view q t, 0 < qty e := by
  intro e he
  obtain ⟨h, hh, rfl⟩ := mem_map.1 he
  exact hq.pos t h hh

theorem Queued.total_view (hq : Queued b q free) : total (b.view q t) ≤ i64Max := by
  have hfits := (hq.repr.level t).fits
  rw [total, view, map_map]
  exact hfits

theorem total_filter_le (hpos : ∀ e ∈ l, 0 < qty e) (p : Entry → Bool) :
    total (l.filter p) ≤ total l := by
  have hperm := total_perm (filter_append_perm p l)
  rw [total_append] at hperm
  have := total_nonneg fun e he => hpos e (mem_of_mem_filter (p := fun x => !p x) he)
  omega

structure Scanned (taker : IncomingOrder) (l : List Entry) (c : Crossing) : Prop where
  qty : c.qty = total (l.filter taker.crosses)
  makers : c.makers = (l.filter taker.crosses).length
  best_le : taker.side.opposite.key c.bestPrice ≤ taker.side.opposite.key taker.price
  best_min : ∀ e ∈ l, taker.crosses e → taker.side.opposite.key c.bestPrice ≤ taker.makerKey e
  best_mem : c.bestPrice = taker.price ∨ ∃ e ∈ l, taker.crosses e ∧ e.order.price = c.bestPrice

theorem better_price (side : Side) (p p' : Int) :
    let best := match side with
      | .buy => min p p'
      | .sell => max p p'
    (best = p ∨ best = p') ∧ side.opposite.key best ≤ side.opposite.key p ∧
      side.opposite.key best ≤ side.opposite.key p' := by
  cases side <;> simp only [Side.opposite, Side.key] <;> omega

theorem Scanned.step (hc : Scanned taker l c) {h : Nat}
    (hpos : ∀ e ∈ l, 0 < HasQty.qty e) (hqty : 0 < (b.slot h).remainingQty)
    (hfits : total (l ++ [b.entry h]) ≤ i64Max) :
    Scanned taker (l ++ [b.entry h]) (crossingStep taker c (b.slot h)) := by
  have htotal : total [b.entry h] = (b.slot h).remainingQty := by
    rw [total_cons, total_nil, add_zero]
    rfl
  by_cases hcross : taker.crosses (b.entry h)
  · have hstep : crossingStep taker c (b.slot h) = _ := if_pos hcross
    have hfilter : (l ++ [b.entry h]).filter taker.crosses =
        l.filter taker.crosses ++ [b.entry h] := by
      rw [filter_append, filter_singleton, hcross]
      rfl
    have hle := total_filter_le hpos taker.crosses
    have hnonneg := total_nonneg fun e (he : e ∈ l.filter taker.crosses) =>
      hpos e (mem_of_mem_filter he)
    obtain ⟨hor, hleft, hright⟩ := better_price taker.side c.bestPrice (b.slot h).price
    rw [total_append] at hfits
    rw [hstep]
    refine ⟨?_, ?_, hleft.trans hc.best_le, ?_, ?_⟩
    · rw [hfilter, total_append, htotal, ← hc.qty]
      refine wrap64_of_nonneg ?_ ?_
      · have := hc.qty
        omega
      · have := hc.qty
        omega
    · rw [hfilter, length_append, ← hc.makers]
      rfl
    · intro e he hecross
      rcases mem_append.1 he with he | he
      · exact hleft.trans (hc.best_min e he hecross)
      · rw [mem_singleton.1 he]
        exact hright
    · rcases hor with hold | hnew
      · rcases hc.best_mem with hlimit | ⟨e, he, hecross, heprice⟩
        · exact .inl (hold.trans hlimit)
        · exact .inr ⟨e, mem_append_left _ he, hecross, heprice.trans hold.symm⟩
      · exact .inr ⟨b.entry h, by simp, hcross, hnew.symm⟩
  · have hstep : crossingStep taker c (b.slot h) = c := if_neg hcross
    have hfilter : (l ++ [b.entry h]).filter taker.crosses = l.filter taker.crosses := by
      rw [filter_append, filter_singleton, Bool.eq_false_iff.2 hcross]
      exact append_nil _
    rw [hstep]
    refine ⟨hfilter ▸ hc.qty, hfilter ▸ hc.makers, hc.best_le, ?_, ?_⟩
    · intro e he hecross
      rcases mem_append.1 he with he | he
      · exact hc.best_min e he hecross
      · exact absurd (mem_singleton.1 he ▸ hecross) hcross
    · exact hc.best_mem.imp_right fun ⟨e, he, hrest⟩ => ⟨e, mem_append_left _ he, hrest⟩

/-- A fold over the orders of a slot, by what one order adds. -/
theorem Queued.foldl_levelOrders {α : Type} {P : List Entry → α → Prop} {f : α → OrderSlot → α}
    {init : α} (hq : Queued b q free) (t : Nat) (hnil : P [] init)
    (hstep : ∀ l a h, P l a → (∀ e ∈ l, 0 < HasQty.qty e) → 0 < (b.slot h).remainingQty →
      total (l ++ [b.entry h]) ≤ i64Max → P (l ++ [b.entry h]) (f a (b.slot h))) :
    P (b.view q t) ((b.levelOrders t).foldl f init) := by
  have hfits := hq.total_view (t := t)
  have hpos := hq.view_pos (t := t)
  rw [hq.repr.levelOrders_eq]
  unfold view at hfits hpos ⊢
  generalize q t = l at hfits hpos ⊢
  induction l using List.reverseRecOn with
  | nil => exact hnil
  | append_singleton l h ih =>
    rw [map_append, map_singleton] at hfits hpos ⊢
    rw [map_append, foldl_append]
    have hpos' : ∀ e ∈ l.map b.entry, 0 < HasQty.qty e :=
      fun e he => hpos e (mem_append_left _ he)
    have hlast : 0 < HasQty.qty (b.entry h) := hpos _ (by simp)
    have hsum := hfits
    rw [total_append, total_cons, total_nil] at hsum
    exact hstep _ _ h (ih (by omega) hpos') hpos' hlast hfits

theorem Queued.scanCrossing (hq : Queued b q free) (t : Nat) (taker : IncomingOrder) :
    Scanned taker (b.view q t) (b.scanCrossing t taker) :=
  hq.foldl_levelOrders t ⟨rfl, rfl, le_rfl, by simp, .inl rfl⟩ fun _ _ _ h => h.step

theorem LevelFilled.matched {o : Outcome Entry}
    (h : LevelFilled taker b q t [] (consumeIf taker.crosses k r (b.view q t)) b')
    (hfills : (consumeIf taker.crosses k r (b.view q t)).fills.Perm o.fills)
    (hbudget : (consumeIf taker.crosses k r (b.view q t)).budget = o.budget)
    (hleft : (consumeIf taker.crosses k r (b.view q t)).left = o.left)
    (hrest : arrange taker.makerKey
      ((consumeIf taker.crosses k r (b.view q t)).rest.filter taker.crosses) = o.rest) :
    LevelMatched taker b q t o b' := by
  obtain ⟨⟨q', free', hq', hview⟩, hfilled, hroom⟩ := h
  refine ⟨⟨q', free', _, hq', hview, hrest, ?_⟩, ⟨_, hfills, hfilled⟩, ?_⟩
  · intro c hc hset
    exact filter_rest_of_disjoint hc hset
  · rw [← hleft, ← hbudget]
    exact hroom

theorem crosses_setQty (taker : IncomingOrder) (e : Entry) (x : Int) :
    taker.crosses (setQty e x) = taker.crosses e :=
  rfl

theorem fillLevel_crosses (taker : IncomingOrder) (t : Nat) (r : Int)
    (hq : Queued b q free) (hroom : b.Room k) :
    ∃ b', b.fillLevel t (taker.setRemaining r) taker.price =
        some (b', taker.setRemaining (consumeIf taker.crosses k r (b.view q t)).left) ∧
      LevelFilled taker b q t [] (consumeIf taker.crosses k r (b.view q t)) b' :=
  fillLevel_spec taker t taker.price r hq hroom

theorem fillLevel_of_sorted (hq : Queued b q free) (hroom : b.Room k)
    (hsorted : Sorted taker.makerKey ((b.view q t).filter taker.crosses)) :
    let o := consume k r (taker.crossing (b.view q t))
    ∃ b', b.fillLevel t (taker.setRemaining r) taker.price =
        some (b', taker.setRemaining o.left) ∧ LevelMatched taker b q t o b' := by
  intro o
  have ho : o = consume k r ((b.view q t).filter taker.crosses) := by
    simp only [o, crossing, hsorted.arrange_eq]
  obtain ⟨hfills, hbudget, hleft, hrest⟩ := consumeIf_filter (k := k) (r := r) (l := b.view q t)
    (crosses_setQty taker)
  rw [← ho] at hfills hbudget hleft hrest
  obtain ⟨b', hrun, hlevel⟩ := fillLevel_crosses taker t r hq hroom
  rw [hleft] at hrun
  refine ⟨b', hrun, hlevel.matched (hfills ▸ List.Perm.refl _) hbudget hleft ?_⟩
  rw [hrest, ho]
  exact (sorted_consume (fun _ _ => rfl) hsorted).arrange_eq

theorem fillLevel_of_covered (hq : Queued b q free) (hroom : b.Room k)
    (hlen : ((b.view q t).filter taker.crosses).length ≤ k)
    (htotal : total ((b.view q t).filter taker.crosses) ≤ r) :
    let o := consume k r (taker.crossing (b.view q t))
    ∃ b', b.fillLevel t (taker.setRemaining r) taker.price =
        some (b', taker.setRemaining o.left) ∧ LevelMatched taker b q t o b' := by
  intro o
  obtain ⟨hfills, hbudget, hleft, hrest, hnil⟩ : _ ∧ _ ∧ _ ∧ _ ∧ o.rest = [] :=
    consumeIf_of_covered (crosses_setQty taker) hlen htotal hq.view_pos
  obtain ⟨b', hrun, hlevel⟩ := fillLevel_crosses taker t r hq hroom
  rw [hleft] at hrun
  refine ⟨b', hrun, hlevel.matched hfills hbudget hleft ?_⟩
  rw [hrest, hnil]
  rfl

theorem Scanned.exists_best (hc : Scanned taker l c) (hmakers : 0 < c.makers) :
    ∃ e ∈ l, taker.crosses e ∧ taker.makerKey e = taker.side.opposite.key c.bestPrice := by
  rcases hc.best_mem with hlimit | ⟨e, he, hcross, hprice⟩
  · rw [hc.makers] at hmakers
    obtain ⟨e, he⟩ := exists_mem_of_length_pos hmakers
    obtain ⟨he, hcross⟩ := mem_filter.1 he
    refine ⟨e, he, hcross, le_antisymm ?_ (hc.best_min e he hcross)⟩
    rw [hlimit]
    exact (selects_iff.1 hcross).2
  · exact ⟨e, he, hcross, by rw [makerKey, hprice]⟩

theorem LevelMatched.nil (hq : Queued b q free) (hroom : b.Room k)
    (hnil : taker.crossing (b.view q t) = []) : LevelMatched taker b q t ⟨[], [], k, r⟩ b :=
  ⟨⟨q, free, b.view q t, hq, (update_eq_self t (b.view q)).symm, hnil, fun _ _ _ => rfl⟩,
    ⟨[], .nil, Filled.nil taker b⟩, fun _ => hroom⟩

theorem fillLevel_best (hq : Queued b q free) (hroom : b.Room k) :
    let best := (b.scanCrossing t taker).bestPrice
    let o := consume k r ((b.view q t).filter (taker.bestGroup best))
    let others := arrange taker.makerKey ((b.view q t).filter fun e =>
      taker.crosses e && decide (taker.makerKey e ≠ taker.side.opposite.key best))
    taker.crossing (b.view q t) = (b.view q t).filter (taker.bestGroup best) ++ others ∧
    ∃ b', b.fillLevel t (taker.setRemaining r) best = some (b', taker.setRemaining o.left) ∧
      LevelMatched taker b q t { o with rest := o.rest ++ others } b' := by
  intro best o others
  have hc := hq.scanCrossing t taker
  have hgroup : ∀ e x, taker.bestGroup best (setQty e x) = taker.bestGroup best e :=
    fun _ _ => rfl
  refine ⟨arrange_eq_group hc.best_min, ?_⟩
  obtain ⟨b', hrun, hlevel⟩ := fillLevel_spec taker t best r hq hroom
  have hcongr : consumeIf (selects taker.side best) k r (b.view q t) =
      consumeIf (taker.bestGroup best) k r (b.view q t) :=
    consumeIf_congr fun e he => selects_best hc.best_le hc.best_min he
  rw [hcongr] at hrun hlevel
  obtain ⟨hfills, hbudget, hleft, -⟩ :=
    consumeIf_filter (k := k) (r := r) (l := b.view q t) hgroup
  rw [hleft] at hrun
  obtain ⟨⟨q', free', hq', hview⟩, hfilled, hroom'⟩ := hlevel
  refine ⟨b', hrun, ⟨q', free', _, hq', hview, ?_, ?_⟩, ⟨_, ?_, hfilled⟩, ?_⟩
  · exact arrange_consumeIf_group (crosses_setQty taker) (fun _ _ => rfl) hc.best_min
  · intro c hdisj hset
    refine filter_rest_of_disjoint (fun e he hsel => hdisj e he ?_) hset
    exact (Bool.and_eq_true_iff.1 hsel).1
  · rw [hfills]
  · rw [hleft, hbudget] at hroom'
    exact hroom'

theorem LevelMatched.trans {o₁ o₂ : Outcome Entry} {b₁ : Orderbook} {q₁ : Nat → List Nat}
    {l₁ : List Entry} (hview₁ : b₁.view q₁ = update (b.view q) t l₁)
    (hother₁ : ∀ c : Entry → Bool, (∀ e, c e → ¬ taker.crosses e) →
      (∀ e x, c (setQty e x) = c e) → l₁.filter c = (b.view q t).filter c)
    (hfilled₁ : ∃ fills, fills.Perm o₁.fills ∧ Filled taker b fills b₁)
    (h₂ : LevelMatched taker b₁ q₁ t o₂ b') :
    LevelMatched taker b q t { o₂ with fills := o₁.fills ++ o₂.fills } b' := by
  obtain ⟨⟨q', free', l', hq', hview', hcross', hother'⟩, ⟨_, hperm₂, hfilled₂⟩, hroom'⟩ := h₂
  obtain ⟨_, hperm₁, hfilled₁⟩ := hfilled₁
  refine ⟨⟨q', free', l', hq', ?_, hcross', ?_⟩,
    ⟨_, hperm₁.append hperm₂, hfilled₁.trans hfilled₂⟩, hroom'⟩
  · rw [hview', hview₁, update_idem]
  · intro c hc hset
    rw [hother' c hc hset, hview₁, update_self, hother₁ c hc hset]

theorem matchByPrice_spec {fuel : Nat} (hq : Queued b q free) (hroom : b.Room k)
    (hr : 0 ≤ r) (hfuel : ((b.view q t).filter taker.crosses).length < fuel) :
    let o := consume k r (taker.crossing (b.view q t))
    ∃ b', matchByPrice fuel b t (taker.setRemaining r) = some (b', taker.setRemaining o.left) ∧
      LevelMatched taker b q t o b' := by
  -- Induction on the rounds: each one but the last empties the best price of the slot.
  induction fuel generalizing b q free k r with
  | zero => omega
  | succ fuel ih =>
    intro o
    have hc := hq.scanCrossing t taker
    by_cases hmakers : 0 < (b.scanCrossing t taker).makers
    · obtain ⟨hsplit, b₁, hrun, hlevel⟩ := fillLevel_best (t := t) (r := r) hq hroom
      set best := (b.scanCrossing t taker).bestPrice
      set group := (b.view q t).filter (taker.bestGroup best) with hgroup
      set others := arrange taker.makerKey ((b.view q t).filter fun e =>
        taker.crosses e && decide (taker.makerKey e ≠ taker.side.opposite.key best))
      set o₁ := consume k r group with ho₁
      have hloop : matchByPrice (fuel + 1) b t (taker.setRemaining r) =
          if o₁.left = 0 ∨ b₁.isBudgetSpent then some (b₁, taker.setRemaining o₁.left)
          else matchByPrice fuel b₁ t (taker.setRemaining o₁.left) :=
        (if_pos hmakers).trans (congrArg (Option.bind · _) hrun)
      have hnonneg : 0 ≤ o₁.left := consume_left_nonneg hr
      have ho : o = consume k r (group ++ others) := congrArg (consume k r) hsplit
      have hspent : (o₁.left = 0 ∨ b₁.isBudgetSpent) ↔ (o₁.budget = 0 ∨ o₁.left ≤ 0) := by
        rcases hnonneg.eq_or_lt with hzero | hpos
        · simp [← hzero]
        · have hroom₁ : b₁.Room o₁.budget := hlevel.room hpos
          rw [hroom₁.isBudgetSpent, decide_eq_true_eq]
          omega
      by_cases hstop : o₁.budget = 0 ∨ o₁.left ≤ 0
      · -- The taker or the budget ends inside the best price.
        rw [hloop, if_pos (hspent.2 hstop), ho, consume_append_of_stopped hstop]
        exact ⟨b₁, rfl, hlevel⟩
      · obtain ⟨⟨q₁, _, l₁, hq₁, hview₁, hcross₁, hother₁⟩, hfilled₁, hroom₁⟩ := hlevel
        have hpos : ∀ e ∈ group, 0 < qty e := fun e he =>
          hq.view_pos e (mem_of_mem_filter he)
        obtain ⟨hlen, htotal⟩ := consume_of_not_stopped hpos hstop
        have hcovered : o₁ = _ := consume_of_covered hlen htotal hpos
        have hat : b₁.view q₁ t = l₁ := by rw [hview₁, update_self]
        rw [← hat, hcovered, nil_append] at hcross₁
        -- The crossing makers of the slot are now those behind the best price.
        have hlt : ((b₁.view q₁ t).filter taker.crosses).length < fuel := by
          have hlen₁ := (perm_arrange taker.makerKey
            ((b₁.view q₁ t).filter taker.crosses)).length_eq
          have hlen₀ := (perm_arrange taker.makerKey
            ((b.view q t).filter taker.crosses)).length_eq
          have hne : 0 < group.length := by
            obtain ⟨e, he, hecross, hekey⟩ := hc.exists_best hmakers
            refine length_pos_of_mem (a := e) (mem_filter.2 ⟨he, ?_⟩)
            exact Bool.and_eq_true_iff.2 ⟨hecross, decide_eq_true hekey⟩
          have := congrArg List.length hsplit
          have := congrArg List.length hcross₁
          simp only [crossing, length_append] at *
          omega
        have hleft : 0 < o₁.left := by omega
        obtain ⟨b', hrun', hlevel'⟩ := ih (r := o₁.left) hq₁ (hroom₁ hleft) hnonneg hlt
        rw [hcross₁] at hrun' hlevel'
        have hcons : o = { consume o₁.budget o₁.left others with
            fills := o₁.fills ++ (consume o₁.budget o₁.left others).fills } := by
          rw [ho, hcovered]
          exact consume_append_of_covered hlen htotal hpos
        rw [hloop, if_neg (hspent.not.2 hstop), hcons]
        exact ⟨b', hrun', .trans hview₁ hother₁ hfilled₁ hlevel'⟩
    · -- No maker of the slot crosses.
      have hnil : taker.crossing (b.view q t) = [] := by
        have hlen := hc.makers
        have hfilter : (b.view q t).filter taker.crosses = [] :=
          length_eq_zero_iff.1 (by omega)
        rw [crossing, hfilter]
        rfl
      have ho : o = ⟨[], [], k, r⟩ := by simp only [o, hnil, consume_nil]
      rw [ho]
      exact ⟨b, if_neg hmakers, .nil hq hroom hnil⟩

theorem Room.left (h : b.Room k) : maxMakersPerOrder - b.eventBuf.length / 2 = k := by
  unfold Room at h
  omega

theorem matchCompressedSlot_spec (hq : Queued b q free) (hroom : b.Room k) (hr : 0 ≤ r) :
    let o := consume k r (taker.crossing (b.view q t))
    ∃ b', b.matchCompressedSlot t (taker.setRemaining r) =
        some (b', taker.setRemaining o.left) ∧ LevelMatched taker b q t o b' := by
  have hc := hq.scanCrossing t taker
  have hdef : b.matchCompressedSlot t (taker.setRemaining r) =
      if (b.scanCrossing t taker).qty ≤ r ∧ (b.scanCrossing t taker).makers ≤ k then
        b.fillLevel t (taker.setRemaining r) taker.price
      else matchByPrice (b.orders.capacity + 1) b t (taker.setRemaining r) := by
    rw [← hroom.left]
    rfl
  rw [hdef, hc.qty, hc.makers]
  split_ifs with hcover
  · exact fillLevel_of_covered hq hroom hcover.2 hcover.1
  · refine matchByPrice_spec hq hroom hr (Nat.lt_succ_of_le ?_)
    refine (length_filter_le ..).trans ?_
    rw [view, length_map]
    exact hq.repr.length_le_capacity t

/-- **`match_at_level` consumes the crossing makers of its slot in price-time priority.**  A slot of
zone 0 is walked in list order, so its crossing makers must share one price. -/
theorem matchAtLevel_spec (hq : Queued b q free) (hroom : b.Room k)
    (hr : 0 ≤ r) (hzone : t < b.compression.zoneSlots 0 →
      Sorted taker.makerKey ((b.view q t).filter taker.crosses)) :
    let o := consume k r (taker.crossing (b.view q t))
    ∃ b', b.matchAtLevel t (taker.setRemaining r) = some (b', taker.setRemaining o.left) ∧
      LevelMatched taker b q t o b' := by
  unfold matchAtLevel
  split_ifs with hlt
  · exact fillLevel_of_sorted hq hroom (hzone hlt)
  · exact matchCompressedSlot_spec hq hroom hr

end Orderbook

end Rsx.Book
