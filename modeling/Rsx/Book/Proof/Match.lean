import Rsx.Book.Proof.Best

/-!
# The match loop

The crossing makers of the whole book, in priority order, begin with those of the best slot.  The
loop consumes them slot by slot, so a run of it consumes the priority list.
-/

namespace Rsx.Book

open Function PriceTime HasQty Buckets List CompressionMap IncomingOrder

variable {m : CompressionMap} {v v' : Nat → List Entry} {s : Side} {t : Nat}
  {l : List Entry}

/-- Every price of slot `t` is better for side `s` than the orders of the side in other slots. -/
def First (m : CompressionMap) (v : Nat → List Entry) (s : Side) (t : Nat) : Prop :=
  ∀ u, u ≠ t → ∀ e ∈ v u, e.order.side = s → ∀ p, m.Regular p → m.priceToIndex p = t →
    s.key p < s.key e.order.price

theorem IsBest.first {e : Entry} (h : IsBest v s t e) (hm : m.Exact) (hplaced : Placed m v) :
    First m v s t := by
  intro u hu e' he' hs p hp hpt
  have hat := hplaced t e h.mem
  have hat' := hplaced u e' he'
  have htmem := hat.index ▸ mem_slotsBest hm hat.regular s
  have humem := hat'.index ▸ mem_slotsBest hm hat'.regular s
  rcases before_or_before hm htmem humem hu with hbefore | hafter
  · exact hbefore p _ hp hat'.regular hpt hat'.index
  · have hlt := hafter _ _ hat'.regular hat.regular hat'.index hat.index
    exact absurd (h.best u e' he' hs) (not_le.2 hlt)

theorem First.refilled (h : First m v s t) : First m (update v t l) s t := by
  intro u hu e he
  rw [update_of_ne hu] at he
  exact h u hu e he

variable {taker : IncomingOrder} {n : Nat}

theorem First.crossing_contents (hplaced : Placed m v) (ht : t < n) (hn : ∀ u, n ≤ u → v u = [])
    (h : First m v taker.side.opposite t) :
    taker.crossing (contents n v) =
      taker.crossing (v t) ++ taker.crossing (contents n (update v t [])) := by
  have hmem : ∀ {e}, e ∈ contents n (update v t []) → ∃ u, u ≠ t ∧ e ∈ v u := by
    intro e he
    obtain ⟨u, -, he⟩ := mem_contents.1 he
    by_cases hu : u = t
    · rw [hu, update_self] at he
      exact absurd he not_mem_nil
    · exact ⟨u, hu, by rwa [update_of_ne hu] at he⟩
  have hsorted : Sorted taker.makerKey
      (taker.crossing (v t) ++ taker.crossing (contents n (update v t []))) := by
    refine pairwise_append.2 ⟨sorted_arrange _ _, sorted_arrange _ _, ?_⟩
    intro a ha c hc
    obtain ⟨ha, -⟩ := mem_filter.1 (mem_arrange.1 ha)
    obtain ⟨hc, hcross⟩ := mem_filter.1 (mem_arrange.1 hc)
    obtain ⟨u, hu, hc⟩ := hmem hc
    have hat := hplaced t a ha
    exact (h u hu c hc (Orderbook.selects_iff.1 hcross).1 _ hat.regular hat.index).le
  refine (sorted_arrange _ _).eq_of_filter_eq hsorted fun k => ?_
  unfold crossing
  rw [filter_append, filter_arrange, filter_arrange, filter_arrange, filter_filter,
    filter_filter, filter_filter]
  -- One price rests in one slot.
  set c : Entry → Bool := fun e => decide (taker.makerKey e = k) && taker.crosses e
  have hslot : ∀ u u' e e', e ∈ v u → e' ∈ v u' → c e → c e' → u = u' := by
    intro u u' e e' he he' hc hc'
    have hkey := of_decide_eq_true (Bool.and_eq_true_iff.1 hc).1
    have hkey' := of_decide_eq_true (Bool.and_eq_true_iff.1 hc').1
    have hprice := taker.side.opposite.key_injective (hkey.trans hkey'.symm)
    rw [← (hplaced u e he).index, hprice, (hplaced u' e' he').index]
  by_cases hex : ∃ u e, e ∈ v u ∧ c e
  · obtain ⟨u, e, he, hc⟩ := hex
    have hu : u < n := by
      by_contra hge
      rw [hn u (by omega)] at he
      exact not_mem_nil he
    have honly : ∀ u', u' ≠ u → ∀ e' ∈ v u', ¬ c e' := fun u' hu' e' he' hc' =>
      hu' (hslot u' u e' e he' he hc' hc)
    rw [filter_contents hu honly]
    by_cases hut : u = t
    · subst hut
      have hnone : (contents n (update v u [])).filter c = [] := by
        rw [filter_eq_nil_iff]
        intro e' he' hc'
        obtain ⟨u', hu', he'⟩ := hmem he'
        exact honly u' hu' e' he' hc'
      rw [hnone, append_nil]
    · have hnone : (v t).filter c = [] := filter_eq_nil_iff.2 (honly t (Ne.symm hut))
      have honly' : ∀ u', u' ≠ u → ∀ e' ∈ update v t [] u', ¬ c e' := by
        intro u' hu' e' he'
        by_cases ht' : u' = t
        · rw [ht', update_self] at he'
          exact absurd he' not_mem_nil
        · rw [update_of_ne ht'] at he'
          exact honly u' hu' e' he'
      rw [filter_contents hu honly', hnone, nil_append, update_of_ne hut]
  · have hnone : ∀ u, ∀ e ∈ v u, ¬ c e := fun u e he hc => hex ⟨u, e, he, hc⟩
    rw [filter_eq_nil_iff.2 (hnone t)]
    rw [filter_eq_nil_iff.2, filter_eq_nil_iff.2]
    · rfl
    · intro e he
      obtain ⟨u, -, he⟩ := hmem he
      exact hnone u e he
    · intro e he
      obtain ⟨u, -, he⟩ := mem_contents.1 he
      exact hnone u e he

/-- The entries of `v'` come from entries of `v` in the same slot, of the same side and price. -/
def Within (v v' : Nat → List Entry) : Prop :=
  ∀ t, ∀ e ∈ v' t, ∃ e₀ ∈ v t, e.order.side = e₀.order.side ∧ e.order.price = e₀.order.price

theorem Within.refl (v : Nat → List Entry) : Within v v :=
  fun _ e he => ⟨e, he, rfl, rfl⟩

theorem Within.trans {v'' : Nat → List Entry} (h : Within v v') (h' : Within v' v'') :
    Within v v'' := by
  intro t e he
  obtain ⟨e₁, he₁, hs₁, hp₁⟩ := h' t e he
  obtain ⟨e₀, he₀, hs₀, hp₀⟩ := h t e₁ he₁
  exact ⟨e₀, he₀, hs₁.trans hs₀, hp₁.trans hp₀⟩

def Indexed (m : CompressionMap) (v : Nat → List Entry) : Prop :=
  ∀ t, ∀ e ∈ v t, m.priceToIndex e.order.price = t

theorem Within.indexed (h : Within v v') (hindexed : Indexed m v) : Indexed m v' := by
  intro t e he
  obtain ⟨e₀, he₀, -, hprice⟩ := h t e he
  exact hprice ▸ hindexed t e₀ he₀

theorem Within.placed (h : Within v v') (hplaced : Placed m v) : Placed m v' := by
  intro t e he
  obtain ⟨e₀, he₀, -, hprice⟩ := h t e he
  exact hprice ▸ hplaced t e₀ he₀

namespace Orderbook

variable {b b' : Orderbook} {q q' : Nat → List Nat} {free free' : List Nat}
  {k : Nat} {r : Int} {e : Entry}

structure Standing (b : Orderbook) (q : Nat → List Nat) (free : List Nat) : Prop where
  queued : Queued b q free
  exact : b.compression.Exact
  asc : b.priceAsc = b.compression.buildPriceAsc
  placed : Placed b.compression (b.view q)
  tracks : ∀ s, Tracks b q s

def entries (b : Orderbook) (q : Nat → List Nat) : List Entry :=
  contents b.compression.totalSlots (b.view q)

/-- What the match loop gives: the outcome `o` of consuming the crossing makers of the book. -/
structure Matched (taker : IncomingOrder) (b : Orderbook) (q : Nat → List Nat)
    (o : Outcome Entry) (b' : Orderbook) (q' : Nat → List Nat) (free' : List Nat) : Prop where
  standing : Standing b' q' free'
  crossing : taker.crossing (b'.entries q') = o.rest
  other : ∀ c : Entry → Bool, (∀ e, c e → ¬ taker.crosses e) → (∀ e x, c (setQty e x) = c e) →
    ∀ t, (b'.view q' t).filter c = (b.view q t).filter c
  origin : Within (b.view q) (b'.view q')
  traded : ∃ fills, fills.Perm o.fills ∧ Traded taker b fills b'
  room : 0 < o.left → b'.Room o.budget

theorem Matched.trans {b₁ : Orderbook} {q₁ : Nat → List Nat} {free₁ : List Nat}
    {o₁ o₂ : Outcome Entry} (h₁ : Matched taker b q o₁ b₁ q₁ free₁)
    (h₂ : Matched taker b₁ q₁ o₂ b' q' free') :
    Matched taker b q { o₂ with fills := o₁.fills ++ o₂.fills } b' q' free' := by
  obtain ⟨_, hperm₁, htraded₁⟩ := h₁.traded
  obtain ⟨_, hperm₂, htraded₂⟩ := h₂.traded
  exact
    { standing := h₂.standing
      crossing := h₂.crossing
      other := fun c hc hset t => (h₂.other c hc hset t).trans (h₁.other c hc hset t)
      origin := h₁.origin.trans h₂.origin
      traded := ⟨_, hperm₁.append hperm₂, htraded₁.trans htraded₂⟩
      room := h₂.room }

theorem Matched.refl (hst : Standing b q free) (hroom : b.Room k) :
    Matched taker b q ⟨[], taker.crossing (b.entries q), k, r⟩ b q free :=
  { standing := hst
    crossing := rfl
    other := fun _ _ _ _ => rfl
    origin := .refl _
    traded := ⟨[], .nil, Traded.nil taker b⟩
    room := fun _ => hroom }

theorem origin_of_matched {l' l₀ : List Entry}
    (hcross : ∀ e ∈ l', taker.crosses e → e ∈ (consume k r l₀).rest)
    (hl : ∀ e ∈ l₀, e ∈ l) (hother : ∀ c : Entry → Bool, (∀ e, c e → ¬ taker.crosses e) →
      (∀ e x, c (setQty e x) = c e) → l'.filter c = l.filter c) (he : e ∈ l') :
    ∃ e₀ ∈ l, e.order.side = e₀.order.side ∧ e.order.price = e₀.order.price := by
  by_cases hec : taker.crosses e
  · refine forall_rest (P := fun e => ∃ e₀ ∈ l, e.order.side = e₀.order.side ∧
      e.order.price = e₀.order.price) (fun _ _ h => h) ?_ e (hcross e he hec)
    exact fun a ha => ⟨a, hl a ha, rfl, rfl⟩
  · have hsame := hother (fun e => !taker.crosses e) (fun e h => by simpa using h)
      (fun e x => by rw [crosses_setQty])
    have hmem : e ∈ l'.filter fun e => !taker.crosses e :=
      mem_filter.2 ⟨he, by simpa using hec⟩
    rw [hsame] at hmem
    exact ⟨e, (mem_filter.1 hmem).1, rfl, rfl⟩

theorem within_update (hl : ∀ e ∈ l, ∃ e₀ ∈ v t,
    e.order.side = e₀.order.side ∧ e.order.price = e₀.order.price) : Within v (update v t l) := by
  intro u e he
  by_cases hu : u = t
  · subst hu
    rw [update_self] at he
    exact hl e he
  · rw [update_of_ne hu] at he
    exact ⟨e, he, rfl, rfl⟩

theorem Queued.refreshBest (hq : Queued b q free) (s : Side) : Queued (b.refreshBest s) q free :=
  hq.congr rfl rfl rfl rfl

theorem Frame.refreshBest (h : Frame b b') (s : Side) : Frame b (b'.refreshBest s) :=
  ⟨h.1, h.2, h.3, h.4, h.5, h.6, h.7⟩

theorem Traded.refreshBest {fills : List (Entry × Int)} (h : Traded taker b fills b') (s : Side) :
    Traded taker b fills (b'.refreshBest s) :=
  ⟨h.frame.refreshBest s, h.events, h.users, h.drawn, h.held⟩

theorem matchAtLevel_refresh (hst : Standing b q free) (hroom : b.Room k) (hr : 0 ≤ r)
    (hbest : IsBest (b.view q) taker.side.opposite (b.bestTick taker.side.opposite) e) :
    let t := b.bestTick taker.side.opposite
    let o := consume k r (taker.crossing (b.view q t))
    let others := taker.crossing (contents b.compression.totalSlots
      (update (b.view q) t []))
    taker.crossing (b.entries q) = taker.crossing (b.view q t) ++ others ∧
    ∃ b₁ q₁ free₁, b.matchAtLevel t (taker.setRemaining r) = some (b₁, taker.setRemaining o.left) ∧
      Matched taker b q { o with rest := o.rest ++ others }
        (b₁.refreshBest taker.side.opposite) q₁ free₁ := by
  intro t o others
  have hfirst := hbest.first hst.exact hst.placed
  have hn : ∀ u, b.compression.totalSlots ≤ u → b.view q u = [] := fun u hu => by
    rw [view, hst.queued.repr.outside u hu]
    rfl
  have ht : t < b.compression.totalSlots := by
    by_contra hge
    have := hbest.mem
    rw [hn t (by omega)] at this
    exact not_mem_nil this
  have hzone : t < b.compression.zoneSlots 0 →
      Sorted taker.makerKey ((b.view q t).filter taker.crosses) := by
    intro hlt
    refine pairwise_of_forall_mem_list fun a ha c hc => ?_
    have := hst.placed.one_price hst.exact hlt (mem_of_mem_filter ha)
      (mem_of_mem_filter hc)
    rw [makerKey, makerKey, this]
  refine ⟨hfirst.crossing_contents hst.placed ht hn, ?_⟩
  obtain ⟨b₁, hrun, ⟨q₁, free₁, l', hq₁, hview₁, hcross₁, hother₁⟩, ⟨fills, hperm, hfilled⟩,
    hroom₁⟩ := matchAtLevel_spec hst.queued hroom hr hzone
  refine ⟨b₁, q₁, free₁, hrun, ?_⟩
  have hcomp : b₁.compression = b.compression := hfilled.frame.compression
  have hview : (b₁.refreshBest taker.side.opposite).view q₁ = update (b.view q) t l' := hview₁
  have horigin : Within (b.view q) (b₁.view q₁) := by
    rw [hview₁]
    have hcross : ∀ e ∈ l', taker.crosses e → e ∈ o.rest := by
      intro e he hec
      rw [← hcross₁]
      exact mem_arrange.2 (mem_filter.2 ⟨he, hec⟩)
    refine within_update fun e' he' => origin_of_matched hcross (fun e he => ?_) hother₁ he'
    exact (mem_filter.1 (mem_arrange.1 he)).1
  have hother : ∀ c : Entry → Bool, (∀ e, c e → ¬ taker.crosses e) →
      (∀ e x, c (setQty e x) = c e) → ∀ u, (b₁.view q₁ u).filter c = (b.view q u).filter c := by
    intro c hc hset u
    rw [hview₁]
    by_cases hu : u = t
    · subst hu
      rw [update_self]
      exact hother₁ c hc hset
    · rw [update_of_ne hu]
  have hplaced₁ : Placed b₁.compression (b₁.view q₁) := by
    rw [hcomp]
    exact horigin.placed hst.placed
  have hasc₁ : b₁.priceAsc = b₁.compression.buildPriceAsc := by
    rw [hfilled.frame.priceAsc, hcomp]
    exact hst.asc
  have hexact₁ : b₁.compression.Exact := hcomp ▸ hst.exact
  refine ⟨⟨hq₁.refreshBest _, hexact₁, hasc₁, hplaced₁, ?_⟩, ?_, hother, horigin,
    ⟨fills, hperm, hfilled.toTraded.refreshBest _⟩, hroom₁⟩
  · intro s
    by_cases hs : s = taker.side.opposite
    · subst hs
      exact hq₁.tracks_refreshBest hexact₁ hasc₁ hplaced₁ _
    · -- Makers of the taker's own side do not cross it.
      refine (hst.tracks s).congr ?_ ?_ fun u e' hs' => ?_
      · exact (update_of_ne hs ..).trans (congrFun hfilled.bestTick s)
      · exact (update_of_ne hs ..).trans (congrFun hfilled.bestPx s)
      · have hfilter := hother (fun e => decide (e.order.side = s))
          (fun e he hcross => hs ((of_decide_eq_true he).symm.trans (selects_iff.1 hcross).1))
          (fun _ _ => rfl) u
        have hiff : e' ∈ b₁.view q₁ u ↔ e' ∈ b.view q u := by
          have := congrArg (e' ∈ ·) hfilter
          simpa [mem_filter, hs'] using this
        exact hiff
  · have hn' : ∀ u, b.compression.totalSlots ≤ u → update (b.view q) t l' u = [] := by
      intro u hu
      rw [update_of_ne (by omega), hn u hu]
    have hplaced' : Placed b.compression (update (b.view q) t l') :=
      hcomp ▸ hview₁ ▸ hplaced₁
    have hsplit := hfirst.refilled.crossing_contents hplaced' ht hn'
    rw [update_self, update_idem, hcross₁] at hsplit
    unfold entries
    rw [hview]
    exact (congrArg (fun m => taker.crossing (contents (totalSlots m) _)) hcomp).trans
      hsplit

theorem crossing_eq_nil (hnone : ∀ t, ∀ e ∈ v t, ¬ taker.crosses e) :
    taker.crossing (contents n v) = [] := by
  have hfilter : (contents n v).filter taker.crosses = [] := by
    rw [filter_eq_nil_iff]
    intro e he
    obtain ⟨t, -, he⟩ := mem_contents.1 he
    exact hnone t e he
  rw [crossing, hfilter]
  rfl

theorem crossing_eq_nil_of_best (hbest : IsBest v taker.side.opposite t e)
    (hnone : ¬ taker.crosses e) : taker.crossing (contents n v) = [] := by
  refine crossing_eq_nil fun u e' he' hcross => hnone ?_
  obtain ⟨hs, hle⟩ := selects_iff.1 hcross
  exact selects_iff.2 ⟨hbest.side, (hbest.best u e' he' hs).trans hle⟩

theorem crossing_eq_nil_of_empty (hempty : SideEmpty v taker.side.opposite) :
    taker.crossing (contents n v) = [] :=
  crossing_eq_nil fun u e he hcross => hempty u e he (selects_iff.1 hcross).1

theorem Standing.ne_none (hst : Standing b q free) (hbest : IsBest (b.view q) s t e) :
    t ≠ NONE := by
  have hlt := hst.exact.priceToIndex_lt e.order.price
  rw [(hst.placed t e hbest.mem).index] at hlt
  have := hst.exact.total_lt
  unfold NONE
  omega

theorem matchLoop_succ (fuel : Nat) (b : Orderbook) (r : Int) :
    matchLoop (fuel + 1) b (taker.setRemaining r) =
      if 0 < r ∧ b.bestTick taker.side.opposite ≠ NONE then
        (b.matchAtLevel (b.bestTick taker.side.opposite) (taker.setRemaining r)).bind fun x =>
          if x.2.remainingQty = r then some (x.1.refreshBest taker.side.opposite, x.2)
          else matchLoop fuel (x.1.refreshBest taker.side.opposite) x.2
      else some (b, taker.setRemaining r) :=
  rfl

theorem matchLoop_filled (fuel : Nat) (b : Orderbook) :
    matchLoop (fuel + 1) b (taker.setRemaining 0) = some (b, taker.setRemaining 0) := by
  rw [matchLoop]
  exact if_neg fun h => absurd h.1 (lt_irrefl (0 : Int))

/-- **The match loop consumes the crossing makers of the book in price-time priority.** -/
theorem matchLoop_spec (taker : IncomingOrder) {fuel : Nat}
    (hst : Standing b q free) (hroom : b.Room k) (hr : 0 ≤ r)
    (hfuel : (taker.crossing (b.entries q)).length + 1 < fuel) :
    let o := consume k r (taker.crossing (b.entries q))
    ∃ b' q' free', matchLoop fuel b (taker.setRemaining r) =
        some (b', taker.setRemaining o.left) ∧ Matched taker b q o b' q' free' := by
  induction fuel generalizing b q free k r with
  | zero => omega
  | succ fuel ih =>
    intro o
    have hloop : matchLoop (fuel + 1) b (taker.setRemaining r) = _ := matchLoop_succ fuel b r
    have hpos : ∀ e ∈ taker.crossing (b.entries q), 0 < qty e := by
      intro e he
      obtain ⟨_, -, he⟩ := mem_contents.1 (mem_filter.1 (mem_arrange.1 he)).1
      exact hst.queued.view_pos e he
    by_cases hcond : 0 < r ∧ b.bestTick taker.side.opposite ≠ NONE
    · rw [hloop, if_pos hcond]
      obtain ⟨e, hbest, -⟩ := (hst.tracks taker.side.opposite).resolve_left
        fun h => hcond.2 h.1
      obtain ⟨hsplit, b₁, q₁, free₁, hrun, hmatched⟩ :=
        matchAtLevel_refresh (r := r) hst hroom hr hbest
      set t := b.bestTick taker.side.opposite
      set o₁ := consume k r (taker.crossing (b.view q t))
      set others := taker.crossing (contents b.compression.totalSlots
        (update (b.view q) t []))
      rw [hrun]
      set b₂ := b₁.refreshBest taker.side.opposite
      change ∃ b' q' free', (if o₁.left = r then some (b₂, taker.setRemaining o₁.left)
        else matchLoop fuel b₂ (taker.setRemaining o₁.left)) = _ ∧ _
      have hposAt : ∀ e ∈ taker.crossing (b.view q t), 0 < qty e := fun e he =>
        hpos e (hsplit ▸ mem_append_left _ he)
      have ho : o = { consume o₁.budget o₁.left (o₁.rest ++ others) with
          fills := o₁.fills ++ (consume o₁.budget o₁.left (o₁.rest ++ others)).fills } := by
        simp only [o, hsplit]
        exact consume_append hposAt
      have hnonneg : 0 ≤ o₁.left := consume_left_nonneg hr
      -- After a stop the outcome is the one of this iteration.
      have hstopped : o₁.budget = 0 ∨ o₁.left ≤ 0 → o = { o₁ with rest := o₁.rest ++ others } := by
        intro hstop
        rw [ho, consume, consumeIf_of_spent hstop, append_nil]
      by_cases hleft : o₁.left = r
      · -- No progress: the budget is spent or the best maker does not cross.
        have hend : o = { o₁ with rest := o₁.rest ++ others } := by
          by_cases hk : k = 0
          · refine hstopped (.inl ?_)
            have : o₁ = _ := consumeIf_of_spent (.inl hk)
            rw [this]
            exact hk
          · have hnil : taker.crossing (b.view q t) = [] := by
              by_contra hne
              exact absurd hleft (consume_left_lt hk hcond.1 hposAt hne).ne
            have hnone : ¬ taker.crosses e := by
              intro hcross
              have : e ∈ taker.crossing (b.view q t) :=
                mem_arrange.2 (mem_filter.2 ⟨hbest.mem, hcross⟩)
              rw [hnil] at this
              exact not_mem_nil this
            have hall : taker.crossing (b.entries q) = [] := crossing_eq_nil_of_best hbest hnone
            rw [hnil] at hsplit
            simp only [o, o₁, hnil, hall, ← hsplit, consume_nil]
        rw [if_pos hleft, hend]
        exact ⟨b₂, q₁, free₁, rfl, hmatched⟩
      · rw [if_neg hleft]
        rcases hnonneg.eq_or_lt with hzero | hpos₁
        · -- The taker is filled and the next test of the loop ends it.
          obtain ⟨fuel, rfl⟩ := Nat.exists_eq_succ_of_ne_zero (by omega : fuel ≠ 0)
          rw [hstopped (.inr hzero.ge)]
          refine ⟨b₂, q₁, free₁, ?_, hmatched⟩
          rw [← hzero]
          exact matchLoop_filled fuel b₂
        · have hlen : (taker.crossing (b₂.entries q₁)).length + 1 < fuel := by
            have hrest : o₁.rest.length + o₁.fills.length =
                (taker.crossing (b.view q t)).length := (consume_lengths hpos₁).1
            have hfills : o₁.fills ≠ [] := by
              intro hnil
              have hsum : o₁.left = r - (o₁.fills.map Prod.snd).sum := consume_left ..
              rw [hnil] at hsum
              exact hleft (by simpa using hsum)
            have := length_pos_iff.2 hfills
            rw [hmatched.crossing]
            rw [hsplit] at hfuel
            simp only [length_append] at hfuel ⊢
            omega
          obtain ⟨b', q', free', hrun', hmatched'⟩ :=
            ih (r := o₁.left) hmatched.standing (hmatched.room hpos₁) hnonneg hlen
          rw [hmatched.crossing] at hrun' hmatched'
          rw [ho]
          exact ⟨b', q', free', hrun', hmatched.trans hmatched'⟩
    · rw [hloop, if_neg hcond]
      have ho : o = ⟨[], taker.crossing (b.entries q), k, r⟩ := by
        by_cases hzero : r ≤ 0
        · exact consumeIf_of_spent (.inr hzero)
        · obtain ⟨-, -, hempty⟩ := (hst.tracks taker.side.opposite).resolve_right (by
            rintro ⟨e, hbest, -⟩
            exact hcond ⟨by omega, hst.ne_none hbest⟩)
          have hnil : taker.crossing (b.entries q) = [] := crossing_eq_nil_of_empty hempty
          simp only [o, hnil, consume_nil]
      rw [ho]
      exact ⟨b, q, free, rfl, .refl hst hroom⟩

end Orderbook

end Rsx.Book
