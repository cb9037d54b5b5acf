import Rsx.Book.Proof.Recenter

/-!
# Matching under any map

Price-time priority needs a map that keeps the slots in price order.  That the lists, the slab and
the user registry stay consistent does not: whatever slot the loop visits, the fills it makes are
taken from orders that rest there.
-/

namespace Rsx.Book.Orderbook

open Function PriceTime HasQty Buckets List

variable {b b' : Orderbook} {q q' : Nat → List Nat} {free free' : List Nat} {t k : Nat} {r r' : Int}
  {taker : IncomingOrder} {fills : List (Entry × Int)}
  {fills₁ fills₂ : List (Entry × Int)} {l : List Entry}

def filledQty (fills : List (Entry × Int)) : Int :=
  (fills.map Prod.snd).sum

@[simp] theorem filledQty_nil : filledQty [] = 0 := rfl

@[simp] theorem filledQty_cons (fill : Entry × Int) :
    filledQty (fill :: fills) = fill.2 + filledQty fills :=
  sum_cons

theorem filledQty_append (fills₁ fills₂ : List (Entry × Int)) :
    filledQty (fills₁ ++ fills₂) = filledQty fills₁ + filledQty fills₂ := by
  rw [filledQty, map_append, sum_append]
  rfl

theorem filledQty_perm (h : fills₁.Perm fills₂) : filledQty fills₁ = filledQty fills₂ :=
  (h.map Prod.snd).sum_eq

theorem Drawn.filledQty_nonneg {held : Nat → Option Resting} (h : Drawn held fills) :
    0 ≤ filledQty fills := by
  induction fills generalizing held with
  | nil => exact le_rfl
  | cons fill fills ih =>
    obtain ⟨-, -, _, -, hrest⟩ := h
    have := ih hrest
    rw [filledQty_cons]
    omega

/-- What a part of the match gives: `fills` take the taker from `r` to `r'` and at most `k` makers
are filled. -/
structure Swept (taker : IncomingOrder) (b : Orderbook) (q : Nat → List Nat) (k : Nat) (r : Int)
    (fills : List (Entry × Int)) (b' : Orderbook) (q' : Nat → List Nat) (free' : List Nat)
    (r' : Int) : Prop where
  queued : Queued b' q' free'
  origin : Within (b.view q) (b'.view q')
  traded : Traded taker b fills b'
  balance : filledQty fills + r' = r
  budget : fills.length ≤ k
  nonneg : 0 ≤ r'
  room : 0 < r' → b'.Room (k - fills.length)
  length : 0 < r' → (b'.entries q').length + fills.length = (b.entries q).length
  total : total (b'.entries q') + filledQty fills = total (b.entries q)
  crosses : ∀ fill ∈ fills, taker.crosses fill.1

theorem Swept.refl (taker : IncomingOrder) (hq : Queued b q free) (hroom : b.Room k) (hr : 0 ≤ r) :
    Swept taker b q k r [] b q free r :=
  ⟨hq, .refl _, Traded.nil taker b, Int.zero_add r, Nat.zero_le k, hr, fun _ => hroom, fun _ => rfl,
    Int.add_zero _, fun _ h => absurd h not_mem_nil⟩

theorem Swept.trans {b₁ : Orderbook} {q₁ : Nat → List Nat} {free₁ : List Nat} {r₁ : Int}
    (h₁ : Swept taker b q k r fills₁ b₁ q₁ free₁ r₁) (hpos : 0 < r₁)
    (h₂ : Swept taker b₁ q₁ (k - fills₁.length) r₁ fills₂ b' q' free' r') :
    Swept taker b q k r (fills₁ ++ fills₂) b' q' free' r' := by
  have hbudget₁ := h₁.budget
  have hbudget₂ := h₂.budget
  refine ⟨h₂.queued, h₁.origin.trans h₂.origin, h₁.traded.trans h₂.traded, ?_, ?_, h₂.nonneg,
    fun hr' => ?_, fun hr' => ?_, ?_, fun fill hfill => ?_⟩
  · rw [filledQty_append, ← h₁.balance, ← h₂.balance]
    omega
  · rw [length_append]
    omega
  · rw [length_append, ← Nat.sub_sub]
    exact h₂.room hr'
  · have hlen₁ := h₁.length hpos
    have hlen₂ := h₂.length hr'
    rw [length_append]
    omega
  · rw [filledQty_append, ← h₁.total, ← h₂.total]
    omega
  · rcases mem_append.1 hfill with h | h
    · exact h₁.crosses fill h
    · exact h₂.crosses fill h

theorem Swept.refreshBest (h : Swept taker b q k r fills b' q' free' r') (s : Side) :
    Swept taker b q k r fills (b'.refreshBest s) q' free' r' :=
  ⟨h.queued.refreshBest s, h.origin, h.traded.refreshBest s, h.balance, h.budget, h.nonneg, h.room,
    h.length, h.total, h.crosses⟩

theorem Swept.filledQty_le (h : Swept taker b q k r fills b' q' free' r') :
    filledQty fills ≤ r := by
  have hbalance := h.balance
  have hnonneg := h.nonneg
  omega

theorem Queued.entries_update (hq : Queued b q free) (hcomp : b'.compression = b.compression)
    (hview : b'.view q' = update (b.view q) t l) (hnil : b.view q t = [] → l = []) :
    (b'.entries q' ++ b.view q t).Perm (b.entries q ++ l) := by
  unfold entries
  rw [hview, hcomp]
  by_cases ht : t < b.compression.totalSlots
  · have hnew := contents_update_perm (q := b.view q) ht l
    have hold := contents_perm (q := b.view q) ht
    refine ((hnew.append_right _).trans ?_).trans (hold.append_right l).symm
    rw [append_assoc (b.view q t)]
    exact perm_append_comm.trans (perm_append_comm.append_left _)
  · have hempty : b.view q t = [] := by
      rw [view, hq.repr.outside t (by omega)]
      rfl
    rw [hnil hempty, ← hempty, update_eq_self]

theorem LevelMatched.swept {o : Outcome Entry} (h : LevelMatched taker b q t o b')
    (hq : Queued b q free) (hr : 0 ≤ r) (hl : l.Perm ((b.view q t).filter taker.crosses))
    (hfills : o.fills = (consume k r l).fills) (hrest : o.rest.Perm (consume k r l).rest)
    (hbudget : o.budget = (consume k r l).budget) (hleft : o.left = (consume k r l).left) :
    ∃ fills q' free', Swept taker b q k r fills b' q' free' o.left := by
  obtain ⟨⟨q', free', l', hq', hview, hcross, hother⟩, ⟨fills, hperm, hfilled⟩, hroom⟩ := h
  rw [hfills] at hperm
  rw [hleft] at hroom ⊢
  have hlen : (l'.filter taker.crosses).length = (consume k r l).rest.length := by
    rw [← hrest.length_eq, ← hcross]
    exact (perm_arrange ..).length_eq.symm
  have hsame := hother (fun e => !taker.crosses e) (fun e h => by simpa using h) fun _ _ => rfl
  -- An entry left in the slot was there before.
  have horigin : ∀ e ∈ l', ∃ e₀ ∈ b.view q t, e.order.side = e₀.order.side ∧
      e.order.price = e₀.order.price := by
    intro e he
    refine origin_of_matched (k := k) (r := r) (fun e he hec => ?_)
      (fun e he => (mem_filter.1 (hl.mem_iff.1 he)).1) hother he
    rw [← hrest.mem_iff, ← hcross]
    exact mem_arrange.2 (mem_filter.2 ⟨he, hec⟩)
  have hentries := hq.entries_update hfilled.frame.compression hview fun hnil =>
    eq_nil_iff_forall_not_mem.2 fun e he => by
      obtain ⟨_, he₀, -⟩ := horigin e he
      rw [hnil] at he₀
      exact not_mem_nil he₀
  refine ⟨fills, q', free', ⟨hq', ?_, hfilled.toTraded, ?_, ?_, consume_left_nonneg hr, ?_, ?_, ?_,
    fun fill hfill => ?_⟩⟩
  · rw [hview]
    exact within_update horigin
  · have hsum : (consume k r l).left = r - filledQty (consume k r l).fills := consume_left ..
    rw [filledQty_perm hperm]
    omega
  · rw [hperm.length_eq]
    exact consume_fills_length ..
  · intro hpos
    have hadd := (consume_lengths hpos).2
    rw [hperm.length_eq, show k - (consume k r l).fills.length = o.budget by omega]
    exact hroom hpos
  · intro hpos
    have hcount := (consume_lengths hpos).1
    have hsplit := fun l : List Entry => length_eq_length_filter_add (l := l) taker.crosses
    have hnew := hsplit l'
    have hold := hsplit (b.view q t)
    have hsize := hentries.length_eq
    rw [hsame] at hnew
    rw [hl.length_eq] at hcount
    rw [length_append, length_append] at hsize
    rw [hperm.length_eq]
    omega
  · have hconsumed := total_consume k r l
    have hsum : (consume k r l).left = r - filledQty (consume k r l).fills := consume_left ..
    have hsplit : ∀ l : List Entry, total (l.filter taker.crosses) +
        total (l.filter fun e => !taker.crosses e) = total l := fun l => by
      rw [← total_append]
      exact total_perm (filter_append_perm _ l)
    have hnew := hsplit l'
    have hold := hsplit (b.view q t)
    have hleftover : total (l'.filter taker.crosses) = total (consume k r l).rest := by
      rw [← total_perm hrest, ← hcross]
      exact (total_perm (perm_arrange ..)).symm
    have hsize := total_perm hentries
    rw [hsame] at hnew
    rw [total_perm hl] at hconsumed
    rw [total_append, total_append] at hsize
    rw [filledQty_perm hperm]
    omega
  · have hmem := mem_of_mem_fills (hperm.mem_iff.1 hfill)
    exact (mem_filter.1 (hl.mem_iff.1 hmem)).2

theorem Queued.matchAtLevel (hq : Queued b q free) (hroom : b.Room k) (hr : 0 ≤ r) (t : Nat)
    (taker : IncomingOrder) :
    ∃ fills b' q' free' r', b.matchAtLevel t (taker.setRemaining r) =
        some (b', taker.setRemaining r') ∧ Swept taker b q k r fills b' q' free' r' := by
  unfold Orderbook.matchAtLevel
  split_ifs with hzone
  · -- List order need not be priority order here.
    obtain ⟨b', hrun, hlevel⟩ := fillLevel_crosses taker t r hq hroom
    obtain ⟨hfills, hbudget, hleft, hrest⟩ := consumeIf_filter (k := k) (r := r) (l := b.view q t)
      (crosses_setQty taker)
    have hmatched : LevelMatched taker b q t
        { consumeIf taker.crosses k r (b.view q t) with
          rest := arrange taker.makerKey
            ((consumeIf taker.crosses k r (b.view q t)).rest.filter taker.crosses) } b' :=
      hlevel.matched (.refl _) rfl rfl rfl
    obtain ⟨fills, q', free', hswept⟩ :=
      hmatched.swept hq hr (.refl _) hfills (hrest ▸ perm_arrange ..) hbudget hleft
    exact ⟨fills, b', q', free', _, hrun, hswept⟩
  · obtain ⟨b', hrun, hmatched⟩ := matchCompressedSlot_spec hq hroom hr
    obtain ⟨fills, q', free', hswept⟩ :=
      hmatched.swept hq hr (perm_arrange ..) rfl (.refl _) rfl rfl
    exact ⟨fills, b', q', free', _, hrun, hswept⟩

theorem Queued.matchLoop (hq : Queued b q free) (hroom : b.Room k) (hr : 0 ≤ r)
    (taker : IncomingOrder) {fuel : Nat} (hfuel : (b.entries q).length + 1 < fuel) :
    ∃ fills b' q' free' r', Orderbook.matchLoop fuel b (taker.setRemaining r) =
        some (b', taker.setRemaining r') ∧ Swept taker b q k r fills b' q' free' r' := by
  induction fuel generalizing b q free k r with
  | zero => omega
  | succ fuel ih =>
    rw [matchLoop_succ]
    by_cases hcond : 0 < r ∧ b.bestTick taker.side.opposite ≠ NONE
    · rw [if_pos hcond]
      obtain ⟨fills₁, b₁, q₁, free₁, r₁, hrun₁, hswept₁⟩ :=
        hq.matchAtLevel hroom hr (b.bestTick taker.side.opposite) taker
      replace hswept₁ := hswept₁.refreshBest taker.side.opposite
      rw [hrun₁]
      set b₂ := b₁.refreshBest taker.side.opposite
      change ∃ fills b' q' free' r', (if r₁ = r then some (b₂, taker.setRemaining r₁)
        else Orderbook.matchLoop fuel b₂ (taker.setRemaining r₁)) = _ ∧ _
      by_cases hstall : r₁ = r
      · rw [if_pos hstall]
        exact ⟨fills₁, b₂, q₁, free₁, r₁, rfl, hswept₁⟩
      · rw [if_neg hstall]
        rcases hswept₁.nonneg.eq_or_lt with hzero | hpos
        · -- The taker is filled and the next test of the loop ends it.
          obtain ⟨fuel, rfl⟩ := Nat.exists_eq_succ_of_ne_zero (by omega : fuel ≠ 0)
          refine ⟨fills₁, b₂, q₁, free₁, r₁, ?_, hswept₁⟩
          rw [← hzero]
          exact matchLoop_filled fuel b₂
        · -- Progress with quantity left removes a maker.
          have hlen : (b₂.entries q₁).length + 1 < fuel := by
            have hlength := hswept₁.length hpos
            have hne : fills₁ ≠ [] := by
              rintro rfl
              have hbalance := hswept₁.balance
              rw [filledQty_nil] at hbalance
              omega
            have := length_pos_iff.2 hne
            omega
          obtain ⟨_, b', q', free', r', hrun, hswept₂⟩ :=
            ih hswept₁.queued (hswept₁.room hpos) hswept₁.nonneg hlen
          exact ⟨_, b', q', free', r', hrun, hswept₁.trans hpos hswept₂⟩
    · rw [if_neg hcond]
      exact ⟨[], b, q, free, r, rfl, .refl taker hq hroom hr⟩

end Rsx.Book.Orderbook
