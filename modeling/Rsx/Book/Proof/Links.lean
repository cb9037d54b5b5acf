import Rsx.Book.Proof.Repr

/-!
# Linking and unlinking

What `linkTail`, `unlink_order` and the slab do to the represented queues.
-/

namespace Rsx.Book.Orderbook

open Function LinkedList Buckets List OrderSlot

variable {b : Orderbook} {q : Nat → List Nat} {loose free : List Nat} {t u h : Nat} {side : Side}
  {qty : Int}

section LinkTail

theorem slot_linkTail (b : Orderbook) (t h : Nat) (side : Side) (qty : Int) (i : Nat) :
    (b.linkTail t h side qty).slot i =
      if i = h then
        { b.slot h with
          next := NONE
          prev := if (b.activeLevels t).orderCount = 0 then NONE else (b.activeLevels t).tail }
      else if (b.activeLevels t).orderCount ≠ 0 ∧ i = (b.activeLevels t).tail then
        { b.slot i with next := h }
      else b.slot i := by
  unfold slot linkTail Slab.modify
  by_cases hzero : (b.activeLevels t).orderCount = 0
  · by_cases hi : i = h
    · subst hi
      simp [hzero]
    · simp [hzero, hi]
  · by_cases hi : i = h
    · subst hi
      by_cases htail : i = (b.activeLevels t).tail
      · simp [hzero, ← htail]
      · simp [hzero, htail]
    · by_cases htail : i = (b.activeLevels t).tail
      · simp [hzero, hi, ← htail]
      · simp [hzero, hi, htail]

theorem slab_linkTail (b : Orderbook) (t h : Nat) (side : Side) (qty : Int) :
    (b.linkTail t h side qty).orders.freeHead = b.orders.freeHead ∧
      (b.linkTail t h side qty).orders.bumpNext = b.orders.bumpNext ∧
      (b.linkTail t h side qty).orders.capacity = b.orders.capacity := by
  unfold linkTail
  by_cases hzero : (b.activeLevels t).orderCount = 0 <;> simp [hzero, Slab.modify]

theorem data_linkTail (b : Orderbook) (t h : Nat) (side : Side) (qty : Int) (i : Nat) :
    ((b.linkTail t h side qty).slot i).data = (b.slot i).data := by
  rw [slot_linkTail]
  by_cases hi : i = h
  · subst hi
    rw [if_pos rfl]
    rfl
  · split_ifs <;> rfl

theorem nextOf_linkTail (b : Orderbook) (t h : Nat) (side : Side) (qty : Int) :
    (b.linkTail t h side qty).nextOf = update (if (b.activeLevels t).orderCount = 0 then b.nextOf
        else update b.nextOf (b.activeLevels t).tail h) h NONE := by
  funext i
  unfold nextOf
  rw [slot_linkTail]
  by_cases hi : i = h
  · subst hi
    simp
  · by_cases hzero : (b.activeLevels t).orderCount = 0
    · simp [hi, hzero]
    · by_cases htail : i = (b.activeLevels t).tail
      · simp [hi, hzero, ← htail]
      · simp [hi, hzero, htail]

theorem prevOf_linkTail (b : Orderbook) (t h : Nat) (side : Side) (qty : Int) :
    (b.linkTail t h side qty).prevOf = update b.prevOf h
        (if (b.activeLevels t).orderCount = 0 then NONE else (b.activeLevels t).tail) := by
  funext i
  unfold prevOf
  rw [slot_linkTail]
  by_cases hi : i = h
  · subst hi
    simp
  · rw [update_of_ne hi]
    split_ifs <;> rfl

theorem Repr.linked_linkTail (hb : Repr b q loose free) (hh : h ∉ q t) (side : Side) (qty : Int) :
    Path (b.linkTail t h side qty).nextOf (q t ++ [h]) NONE ∧
      Back (b.linkTail t h side qty).prevOf NONE (q t ++ [h]) := by
  obtain ⟨hpath, hback, -, htail, -, hcount, -⟩ := hb.level t
  have hnodup := hb.nodup_queue t
  rw [nextOf_linkTail, prevOf_linkTail]
  rcases eq_nil_or_concat' (q t) with hnil | ⟨l, z, hl⟩
  · rw [hnil, length_nil] at hcount
    rw [hnil, if_pos hcount, if_pos hcount]
    exact ⟨⟨update_self .., trivial⟩, update_self .., trivial⟩
  · rw [hl] at hcount htail hpath hback hnodup hh ⊢
    rw [getLastD_concat] at htail
    have hne : (b.activeLevels t).orderCount ≠ 0 := by
      rw [hcount]
      simp
    have hz : z ∉ l := by
      intro hmem
      exact (nodup_append.1 hnodup).2.2 z hmem z (by simp) rfl
    rw [if_neg hne, if_neg hne, htail]
    exact ⟨hpath.push hz hh, hback.push hh⟩

theorem Repr.path_linkTail_of_disjoint (hb : Repr b q loose free) {l : List Nat} {e : Nat}
    (hl : Path b.nextOf l e) (hh : h ∉ l) (hdisj : ∀ x ∈ q t, x ∉ l) (side : Side) (qty : Int) :
    Path (b.linkTail t h side qty).nextOf l e := by
  rw [nextOf_linkTail]
  refine Path.update_of_notMem ?_ hh NONE
  split_ifs with hzero
  · exact hl
  · refine hl.update_of_notMem ?_ h
    -- A non-empty queue ends in one of its members.
    have hne : q t ≠ [] := by
      intro hnil
      rw [(hb.level t).orderCount, hnil] at hzero
      exact hzero rfl
    rw [(hb.level t).tail, getLastD_eq_getLast?, getLast?_eq_some_getLast hne]
    exact hdisj _ (getLast_mem hne)

theorem queueQty_of_data {b b' : Orderbook} (hdata : ∀ i, (b'.slot i).data = (b.slot i).data)
    (l : List Nat) : b'.queueQty l = b.queueQty l := by
  unfold queueQty
  simp only [fun i => (fields_of_data (hdata i)).2.2.1]

theorem queueQty_append (b : Orderbook) (l₁ l₂ : List Nat) :
    b.queueQty (l₁ ++ l₂) = b.queueQty l₁ + b.queueQty l₂ := by
  simp [queueQty]

theorem queueQty_singleton (b : Orderbook) (h : Nat) :
    b.queueQty [h] = (b.slot h).remainingQty := by
  simp [queueQty]

theorem Repr.level_linkTail (hb : Repr b q loose free) (ht : t < b.compression.totalSlots)
    (hh : h ∉ q t) (htick : (b.slot h).tickIndex = t) (hside : (b.slot h).side = side)
    (hqty : (b.slot h).remainingQty = qty) (hnonneg : 0 ≤ qty)
    (hfits : b.queueQty (q t) + qty ≤ i64Max) :
    LevelRepr (b.linkTail t h side qty) t (q t ++ [h]) := by
  have hl := hb.level t
  have hdata := data_linkTail b t h side qty
  have hfield := fun i => fields_of_data (hdata i)
  have hlinked := hb.linked_linkTail hh side qty
  have hsum : (b.linkTail t h side qty).queueQty (q t ++ [h]) = b.queueQty (q t) + qty := by
    rw [queueQty_of_data hdata, queueQty_append, queueQty_singleton, hqty]
  have hlevel : (b.linkTail t h side qty).activeLevels t = _ := update_self ..
  have hcount : ∀ s, ((b.linkTail t h side qty).activeLevels t).count s =
      (b.activeLevels t).count s + if side = s then 1 else 0 := by
    intro s
    rw [hlevel]
    by_cases hs : side = s
    · subst hs
      simp
    · simp [hs, Ne.symm hs]
  have hmem : ∀ x ∈ q t ++ [h], x ∈ q t ∨ x = h := by simp
  constructor
  case path => exact hlinked.1
  case back => exact hlinked.2
  case head =>
    rw [hlevel, hl.orderCount, hl.head]
    cases q t <;> simp
  case tail => rw [hlevel, getLastD_concat]
  case tick =>
    intro x hx
    rw [(hfield x).1]
    rcases hmem x hx with hx | rfl
    · exact hl.tick x hx
    · exact htick
  case orderCount =>
    rw [hlevel, length_append, length_singleton, hl.orderCount]
  case count =>
    intro s
    simp only [hcount, hfield, hl.count, countP_append, countP_singleton, hside, decide_eq_true_eq]
  case totalQty =>
    have := hl.queueQty_nonneg
    rw [hlevel, hsum, hl.totalQty, wrap64_of_nonneg (by omega) hfits]
  case nonneg =>
    intro x hx
    rw [(hfield x).2.2.1]
    rcases hmem x hx with hx | rfl
    · exact hl.nonneg x hx
    · exact hqty ▸ hnonneg
  case fits => rw [hsum]; exact hfits
  case occTest =>
    intro s
    have hbit := hl.occTest s
    have hlt : t < (b.occ s).n := by rw [hb.occN]; exact ht
    rw [hcount]
    unfold Orderbook.linkTail
    by_cases hs : side = s
    · subst hs
      by_cases hzero : (b.activeLevels t).count side = 0
      · simp [hzero, (hb.occWf side).test_set hlt]
      · simp only [hzero, if_false, if_true, hbit]
        exact decide_eq_decide.2 (by omega)
    · by_cases hzero : (b.activeLevels t).count side = 0
      · simp [hzero, hs, Ne.symm hs, hbit]
      · simp [hzero, hs, hbit]

/-- What `linkTail` and `unlink_order` have in common: one queue is exchanged for another one, and
the other queues and the free list are out of reach. -/
theorem Repr.requeue {b' : Orderbook} {l loose' : List Nat} (hb : Repr b q loose free)
    (ht : t < b.compression.totalSlots) (hsame : b'.compression = b.compression)
    (hdata : ∀ i, (b'.slot i).data = (b.slot i).data)
    (hslab : b'.orders.freeHead = b.orders.freeHead ∧ b'.orders.bumpNext = b.orders.bumpNext ∧
      b'.orders.capacity = b.orders.capacity)
    (hlevels : ∀ u, u ≠ t → b'.activeLevels u = b.activeLevels u)
    (hocc : ∀ s, b'.occ s = b.occ s ∨ b'.occ s = (b.occ s).set t ∨ b'.occ s = (b.occ s).clear t)
    (hlevel : LevelRepr b' t l)
    (hothers : ∀ u, u ≠ t → Path b'.nextOf (q u) NONE ∧ Back b'.prevOf NONE (q u))
    (hfree : Path b'.nextOf free NONE) (hperm : (l ++ loose').Perm (q t ++ loose)) :
    Repr b' (update q t l) loose' free := by
  have hfield := fun i => fields_of_data (hdata i)
  have hlt : ∀ s, t < (b.occ s).n := fun s => by rw [hb.occN]; exact ht
  constructor
  case level =>
    intro u
    by_cases hu : u = t
    · subst hu
      rw [update_self]
      exact hlevel
    · rw [update_of_ne hu]
      refine (hb.level u).congr (hlevels u hu) (fun s => ?_) (hothers u hu).1 (hothers u hu).2
        (fun x _ => ⟨(hfield x).1, (hfield x).2.1, (hfield x).2.2.1⟩)
      rcases hocc s with hs | hs | hs
      · rw [hs]
      · rw [hs, (hb.occWf s).test_set (hlt s)]
        simp [hu]
      · rw [hs, (hb.occWf s).test_clear (hlt s)]
        simp [hu]
  case outside =>
    intro u hu
    rw [hsame] at hu
    have hut : u ≠ t := fun heq => absurd ht (Nat.not_lt.2 (heq ▸ hu))
    rw [update_of_ne hut]
    exact hb.outside u hu
  case freePath => exact hfree
  case freeHead => rw [hslab.1]; exact hb.freeHead
  case cover =>
    rw [hslab.2.1, hsame]
    refine Perm.trans ?_ hb.cover
    rw [append_assoc, append_assoc]
    refine ((contents_update_perm ht _).append_right _).trans ?_
    refine Perm.trans ?_ ((contents_perm ht).symm.append_right _)
    -- both lists apart from what the exchange does not touch
    have hswap : ∀ rest l r : List Nat,
        (l ++ rest ++ (r ++ free)).Perm (rest ++ (l ++ r ++ free)) := by
      intro rest l r
      rw [append_assoc, append_assoc]
      exact perm_append_comm_assoc l rest _
    exact (hswap _ _ _).trans (((hperm.append_right _).append_left _).trans (hswap _ _ _).symm)
  case bump_le => rw [hslab.2.1, hslab.2.2]; exact hb.bump_le
  case cap_le => rw [hslab.2.2]; exact hb.cap_le
  case occWf =>
    intro s
    rcases hocc s with hs | hs | hs
    · exact hs ▸ hb.occWf s
    · exact hs ▸ (hb.occWf s).set (hlt s)
    · exact hs ▸ (hb.occWf s).clear (hlt s)
  case occN =>
    intro s
    rw [hsame]
    rcases hocc s with hs | hs | hs <;> rw [hs] <;> exact hb.occN s

/-- **Link at the tail.**  `linkTail` turns a loose handle into the last one of the queue at its
tick. -/
theorem Repr.linkTail (hb : Repr b q (h :: loose) free) (ht : t < b.compression.totalSlots)
    (htick : (b.slot h).tickIndex = t) (hside : (b.slot h).side = side)
    (hqty : (b.slot h).remainingQty = qty) (hnonneg : 0 ≤ qty)
    (hfits : b.queueQty (q t) + qty ≤ i64Max) :
    Repr (b.linkTail t h side qty) (update q t (q t ++ [h])) loose free := by
  have hnew : ∀ t, h ∉ q t := hb.loose_notMem mem_cons_self
  refine hb.requeue ht rfl (data_linkTail b t h side qty) (slab_linkTail b t h side qty)
    (fun u hu => update_of_ne hu _ _) (fun s => ?_)
    (hb.level_linkTail ht (hnew t) htick hside hqty hnonneg hfits) (fun u hu => ⟨?_, ?_⟩) ?_ ?_
  · unfold Orderbook.linkTail
    by_cases hs : s = side
    · subst hs
      by_cases hzero : (b.activeLevels t).count s = 0 <;> simp [hzero]
    · by_cases hzero : (b.activeLevels t).count side = 0 <;> simp [hzero, hs]
  · exact hb.path_linkTail_of_disjoint (hb.level u).path (hnew u)
      (fun x hx hxu => hu (hb.eq_of_mem hxu hx)) side qty
  · rw [prevOf_linkTail]
    exact (hb.level u).back.update_of_notMem (hnew u) _
  · exact hb.path_linkTail_of_disjoint hb.freePath
      (hb.loose_notMem_free mem_cons_self) (fun x hx => hb.notMem_free hx) side qty
  · rw [append_assoc]
    exact Perm.refl _

end LinkTail

section Unlink

variable {l₁ l₂ : List Nat}
  {l : List Nat} {e : Nat}

theorem slot_unlinkOrder (b : Orderbook) (h i : Nat) :
    ((b.unlinkOrder h).slot i).data = (b.slot i).data ∧
      ((b.unlinkOrder h).slot i).next = unlinkNext b.nextOf b.prevOf NONE h i ∧
      ((b.unlinkOrder h).slot i).prev = unlinkPrev b.nextOf b.prevOf NONE h i := by
  unfold slot unlinkOrder unlinkNext unlinkPrev nextOf prevOf slot Slab.get
  by_cases hprev : (b.orders.slots h).prev = NONE <;>
    by_cases hnext : (b.orders.slots h).next = NONE <;>
    simp only [hprev, hnext, ne_eq, not_true, not_false_iff, if_true, if_false, Slab.modify] <;>
    grind [update_apply, data]

theorem nextOf_unlinkOrder (b : Orderbook) (h : Nat) :
    (b.unlinkOrder h).nextOf = unlinkNext b.nextOf b.prevOf NONE h :=
  funext fun i => (slot_unlinkOrder b h i).2.1

theorem prevOf_unlinkOrder (b : Orderbook) (h : Nat) :
    (b.unlinkOrder h).prevOf = unlinkPrev b.nextOf b.prevOf NONE h :=
  funext fun i => (slot_unlinkOrder b h i).2.2

theorem data_unlinkOrder (b : Orderbook) (h i : Nat) :
    ((b.unlinkOrder h).slot i).data = (b.slot i).data :=
  (slot_unlinkOrder b h i).1

theorem slab_unlinkOrder (b : Orderbook) (h : Nat) :
    (b.unlinkOrder h).orders.freeHead = b.orders.freeHead ∧
      (b.unlinkOrder h).orders.bumpNext = b.orders.bumpNext ∧
      (b.unlinkOrder h).orders.capacity = b.orders.capacity := by
  unfold unlinkOrder Slab.get
  by_cases hprev : (b.orders.slots h).prev = NONE <;>
    by_cases hnext : (b.orders.slots h).next = NONE <;> simp [hprev, hnext, Slab.modify]

theorem activeLevels_unlinkOrder (b : Orderbook) (h : Nat) :
    (b.unlinkOrder h).activeLevels = update b.activeLevels (b.slot h).tickIndex
      (let level := b.activeLevels (b.slot h).tickIndex
       { head := if b.prevOf h ≠ NONE then level.head else b.nextOf h
         tail := if b.nextOf h ≠ NONE then level.tail else b.prevOf h
         totalQty := sat64 (level.totalQty - (b.slot h).remainingQty)
         orderCount := level.orderCount - 1
         count := update level.count (b.slot h).side (level.count (b.slot h).side - 1) }) :=
  rfl

theorem occ_unlinkOrder (b : Orderbook) (h : Nat) : (b.unlinkOrder h).occ =
      if (b.activeLevels (b.slot h).tickIndex).count (b.slot h).side - 1 = 0 then
        update b.occ (b.slot h).side
          ((b.occ (b.slot h).side).clear (b.slot h).tickIndex)
      else b.occ :=
  rfl

variable (hb : Repr b q loose free)
include hb

theorem Repr.path_unlink_of_disjoint (hq : q t = l₁ ++ h :: l₂) (hl : Path b.nextOf l e)
    (hdisj : ∀ x ∈ q t, x ∉ l) : Path (b.unlinkOrder h).nextOf l e := by
  have hback := (hb.level t).back
  rw [hq] at hback hdisj
  rw [nextOf_unlinkOrder]
  unfold unlinkNext
  split_ifs with hprev
  · refine hl.update_of_notMem (hdisj _ ?_) _
    rw [prev_eq_getLastD hback] at hprev ⊢
    rcases eq_nil_or_concat' l₁ with rfl | ⟨l, z, rfl⟩
    · exact absurd rfl hprev
    · simp
  · exact hl

theorem Repr.back_unlink_of_disjoint (hq : q t = l₁ ++ h :: l₂) (hl : Back b.prevOf e l)
    (hdisj : ∀ x ∈ q t, x ∉ l) : Back (b.unlinkOrder h).prevOf e l := by
  have hpath := (hb.level t).path
  rw [hq] at hpath hdisj
  rw [prevOf_unlinkOrder]
  unfold unlinkPrev
  split_ifs with hnext
  · refine hl.update_of_notMem (hdisj _ ?_) _
    rw [next_eq_headD hpath] at hnext ⊢
    cases l₂ with
    | nil => exact absurd rfl hnext
    | cons => simp
  · exact hl

theorem Repr.level_unlinkOrder (hq : q t = l₁ ++ h :: l₂) :
    LevelRepr (b.unlinkOrder h) t (l₁ ++ l₂) := by
  have hl := hb.level t
  have hnil := hb.none_notMem t
  have hnodup := hb.nodup_queue t
  rw [hq] at hl hnil hnodup
  have htick : (b.slot h).tickIndex = t := hl.tick h (by simp)
  have hdata := data_unlinkOrder b h
  have hfield := fun i => fields_of_data (hdata i)
  have hsum : b.queueQty (l₁ ++ h :: l₂) = b.queueQty (l₁ ++ l₂) + (b.slot h).remainingQty := by
    simp only [queueQty, map_append, map_cons, sum_append, sum_cons]
    omega
  have hnonneg : ∀ x ∈ l₁ ++ l₂, 0 ≤ (b.slot x).remainingQty := by
    intro x hx
    exact hl.nonneg x (by simp only [mem_append, mem_cons] at hx ⊢; tauto)
  have hrest : 0 ≤ b.queueQty (l₁ ++ l₂) := by
    refine sum_nonneg fun x hx => ?_
    obtain ⟨y, hy, rfl⟩ := mem_map.1 hx
    exact hnonneg y hy
  have hown := hl.nonneg h (by simp)
  have hfits := hl.fits
  have hlevel := congrFun (activeLevels_unlinkOrder b h) t
  rw [htick, update_self] at hlevel
  dsimp only at hlevel
  have hcount : ∀ s, ((b.unlinkOrder h).activeLevels t).count s =
      (b.activeLevels t).count s - if (b.slot h).side = s then 1 else 0 := by
    intro s
    rw [hlevel]
    by_cases hs : (b.slot h).side = s
    · subst hs
      simp
    · simp [hs, Ne.symm hs]
  constructor
  case path =>
    rw [nextOf_unlinkOrder]
    exact path_unlink hl.path hl.back hnodup hnil
  case back =>
    rw [prevOf_unlinkOrder]
    exact back_unlink hl.path hl.back hnodup hnil
  case head => rw [hlevel, headD_unlink hl.path hl.back hnil, hl.head]
  case tail => rw [hlevel, getLastD_unlink hl.path hl.back hnil, hl.tail]
  case tick =>
    intro x hx
    rw [(hfield x).1]
    exact hl.tick x (by simp only [mem_append, mem_cons] at hx ⊢; tauto)
  case orderCount =>
    rw [hlevel, hl.orderCount]
    simp only [length_append, length_cons]
    omega
  case count =>
    intro s
    rw [hcount, hl.count]
    simp only [hfield, countP_append, countP_cons, decide_eq_true_eq]
    omega
  case totalQty =>
    rw [hlevel, queueQty_of_data hdata, hl.totalQty, hsum, Int.add_sub_cancel]
    exact sat64_of_nonneg hrest (by omega)
  case nonneg =>
    intro x hx
    rw [(hfield x).2.2.1]
    exact hnonneg x hx
  case fits =>
    rw [queueQty_of_data hdata]
    omega
  case occTest =>
    intro s
    have hbit := hl.occTest s
    have ht : t < (b.occ s).n := by
      rw [hb.occN]
      exact hb.lt_total (h := h) (by rw [hq]; simp)
    rw [hcount, occ_unlinkOrder, htick]
    by_cases hs : (b.slot h).side = s
    · subst hs
      by_cases hzero : (b.activeLevels t).count (b.slot h).side - 1 = 0
      · simp [hzero, (hb.occWf _).test_clear ht]
      · rw [if_neg hzero, if_pos rfl, hbit]
        exact decide_eq_decide.2 (by omega)
    · rw [if_neg hs, Nat.sub_zero, ← hbit]
      split_ifs
      · rw [update_of_ne (Ne.symm hs)]
      · rfl

/-- **Unlink.**  `unlink_order` takes a handle out of its queue and leaves it loose. -/
theorem Repr.unlinkOrder (hq : q t = l₁ ++ h :: l₂) :
    Repr (b.unlinkOrder h) (update q t (l₁ ++ l₂)) (h :: loose) free := by
  have hmem : h ∈ q t := by rw [hq]; simp
  have ht := hb.lt_total hmem
  have htick := (hb.level t).tick h hmem
  refine hb.requeue ht rfl (data_unlinkOrder b h) (slab_unlinkOrder b h) (fun u hu => ?_)
    (fun s => ?_) (hb.level_unlinkOrder hq) (fun u hu => ?_)
    (hb.path_unlink_of_disjoint hq hb.freePath fun x hx => hb.notMem_free hx) ?_
  · rw [activeLevels_unlinkOrder, htick, update_of_ne hu]
  · rw [occ_unlinkOrder, htick]
    split_ifs
    · by_cases hs : s = (b.slot h).side
      · subst hs
        exact .inr (.inr (update_self ..))
      · exact .inl (update_of_ne hs _ _)
    · exact .inl rfl
  · have hdisj : ∀ x ∈ q t, x ∉ q u := fun x hx hxu => hu (hb.eq_of_mem hxu hx)
    exact ⟨hb.path_unlink_of_disjoint hq (hb.level u).path hdisj,
      hb.back_unlink_of_disjoint hq (hb.level u).back hdisj⟩
  · rw [hq, append_assoc, append_assoc]
    exact perm_middle.append_left _

end Unlink

section Slab

theorem slot_modifySlot (b : Orderbook) (h : Nat) (f : OrderSlot → OrderSlot) (i : Nat) :
    (b.modifySlot h f).slot i = if i = h then f (b.slot h) else b.slot i := by
  exact update_apply ..

theorem Repr.modifySlot_loose (hb : Repr b q (h :: loose) free) (f : OrderSlot → OrderSlot) :
    Repr (b.modifySlot h f) q (h :: loose) free := by
  have hslot : ∀ x, x ≠ h → (b.modifySlot h f).slot x = b.slot x := fun x hx => by
    rw [slot_modifySlot, if_neg hx]
  have hnew : ∀ t, ∀ x ∈ q t, x ≠ h := fun t x hx heq =>
    hb.loose_notMem mem_cons_self t (heq ▸ hx)
  have hnewFree : ∀ x ∈ free, x ≠ h := fun x hx heq =>
    hb.loose_notMem_free mem_cons_self (heq ▸ hx)
  refine { hb with level := fun t => ?_, freePath := ?_ }
  · have hl := hb.level t
    refine hl.congr rfl (fun _ => rfl)
      (hl.path.congr fun x hx => congrArg next (hslot x (hnew t x hx)))
      (hl.back.congr fun x hx => congrArg prev (hslot x (hnew t x hx)))
      fun x hx => ?_
    rw [hslot x (hnew t x hx)]
    exact ⟨rfl, rfl, rfl⟩
  · exact hb.freePath.congr fun x hx => congrArg next (hslot x (hnewFree x hx))

theorem Repr.release (hb : Repr b q (h :: loose) free) :
    Repr { b with orders := b.orders.free h } q loose (h :: free) := by
  -- Apart from the head of the free list this is a write to a loose slot.
  have hm := hb.modifySlot_loose (SlabItem.setNext · b.orders.freeHead)
  refine { hm with
    level := fun t => (hm.level t).congr rfl (fun _ => rfl) (hm.level t).path (hm.level t).back
      fun _ _ => ⟨rfl, rfl, rfl⟩
    freePath := ⟨?_, hm.freePath⟩
    freeHead := rfl
    cover := ?_ }
  · have hown := slot_modifySlot b h (SlabItem.setNext · b.orders.freeHead) h
    rw [if_pos rfl] at hown
    exact (congrArg next hown).trans hb.freeHead
  · refine Perm.trans ?_ hb.cover
    rw [append_assoc, append_assoc]
    exact perm_middle.append_left _

theorem Repr.free_eq_nil (hb : Repr b q loose free) (hfree : b.orders.freeHead = NONE) :
    free = [] := by
  cases free with
  | nil => rfl
  | cons x =>
    have hx : b.orders.freeHead = x := hb.freeHead
    have hlt : x < b.orders.bumpNext := mem_range.1 (hb.cover.mem_iff.1 (by simp))
    have := hb.bump_le
    have := hb.cap_le
    omega

theorem Repr.alloc (hb : Repr b q [] free) {orders : Slab OrderSlot}
    (halloc : b.orders.alloc = some (h, orders)) :
    orders.slots = b.orders.slots ∧ orders.capacity = b.orders.capacity ∧
      ∃ free', Repr { b with orders := orders } q [h] free' := by
  unfold Slab.alloc at halloc
  split_ifs at halloc with hfree hbump
  · -- The free list is not empty.
    obtain ⟨rfl, rfl⟩ := Prod.mk.inj (Option.some.inj halloc)
    refine ⟨rfl, rfl, ?_⟩
    cases free with
    | nil => exact absurd hb.freeHead hfree
    | cons x rest =>
      have hx : b.orders.freeHead = x := hb.freeHead
      refine ⟨rest, { hb with
        level := fun t => (hb.level t).congr rfl (fun _ => rfl) (hb.level t).path
          (hb.level t).back fun _ _ => ⟨rfl, rfl, rfl⟩
        freePath := hb.freePath.2
        freeHead := ?_
        cover := ?_ }⟩
      · rw [hx]
        exact hb.freePath.1
      · rw [hx]
        simpa using hb.cover
  · obtain ⟨rfl, rfl⟩ := Prod.mk.inj (Option.some.inj halloc)
    refine ⟨rfl, rfl, ?_⟩
    obtain rfl := hb.free_eq_nil (not_not.1 hfree)
    refine ⟨[], { hb with
      level := fun t => (hb.level t).congr rfl (fun _ => rfl) (hb.level t).path
        (hb.level t).back fun _ _ => ⟨rfl, rfl, rfl⟩
      cover := ?_
      bump_le := hbump }⟩
    rw [range_succ, append_nil]
    have hcover := hb.cover
    simp only [append_nil] at hcover
    exact hcover.append_right _

theorem Repr.alloc_eq_none (hb : Repr b q [] free) (halloc : b.orders.alloc = none) :
    (contents b.compression.totalSlots q).length = b.orders.capacity := by
  unfold Slab.alloc at halloc
  split_ifs at halloc with hfree hbump
  have hnil := hb.free_eq_nil (not_not.1 hfree)
  have hlen := hb.cover.length_eq
  have := hb.bump_le
  simp only [hnil, append_nil, length_range] at hlen
  omega

end Slab

variable (hb : Repr b q loose free)
include hb

theorem Repr.qty_le_queueQty (hmem : h ∈ q t) : (b.slot h).remainingQty ≤ b.queueQty (q t) := by
  refine single_le_sum (fun x hx => ?_) _ (mem_map_of_mem hmem)
  obtain ⟨y, hy, rfl⟩ := mem_map.1 hx
  exact (hb.level t).nonneg y hy

theorem Repr.qty_le (hmem : h ∈ q t) : (b.slot h).remainingQty ≤ i64Max :=
  (hb.qty_le_queueQty hmem).trans (hb.level t).fits

theorem Repr.reduceQty (hmem : h ∈ q t) (hnonneg : 0 ≤ qty) (hle : qty ≤ (b.slot h).remainingQty) :
    Repr ((b.modifySlot h fun slot =>
        { slot with remainingQty := (b.slot h).remainingQty - qty }).setLevel t
          { b.activeLevels t with totalQty := sat64 ((b.activeLevels t).totalQty - qty) })
      q loose free := by
  set b' := (b.modifySlot h fun slot =>
    { slot with remainingQty := (b.slot h).remainingQty - qty }).setLevel t
      { b.activeLevels t with totalQty := sat64 ((b.activeLevels t).totalQty - qty) } with hb'
  have hslot : ∀ x, b'.slot x = if x = h then
      { b.slot h with remainingQty := (b.slot h).remainingQty - qty } else b.slot x :=
    slot_modifySlot b h fun slot => { slot with remainingQty := (b.slot h).remainingQty - qty }
  have hother : ∀ x, x ≠ h → b'.slot x = b.slot x := fun x hx => by rw [hslot, if_neg hx]
  have hnext : b'.nextOf = b.nextOf := by
    funext x
    unfold nextOf
    rw [hslot]
    split_ifs with hx
    · rw [hx]
    · rfl
  have hprev : b'.prevOf = b.prevOf := by
    funext x
    unfold prevOf
    rw [hslot]
    split_ifs with hx
    · rw [hx]
    · rfl
  have hdata : ∀ x, (b'.slot x).tickIndex = (b.slot x).tickIndex ∧
      (b'.slot x).side = (b.slot x).side := by
    intro x
    rw [hslot]
    split_ifs with hx
    · rw [hx]
      exact ⟨rfl, rfl⟩
    · exact ⟨rfl, rfl⟩
  refine { hb with level := fun u => ?_, freePath := hnext ▸ hb.freePath }
  have hl := hb.level u
  by_cases hu : u = t
  · subst hu
    have hlevel : b'.activeLevels u = _ := update_self ..
    -- The sum over the queue drops by `qty`.
    have hsum : b'.queueQty (q u) = b.queueQty (q u) - qty := by
      obtain ⟨_, _, hq⟩ := append_of_mem hmem
      have hnodup := hb.nodup_queue u
      rw [hq, nodup_middle, nodup_cons, mem_append, not_or] at hnodup
      have hrest : ∀ l : List Nat, h ∉ l → (l.map fun x => (b'.slot x).remainingQty) =
          l.map fun x => (b.slot x).remainingQty := fun l hl =>
        map_congr_left fun x hx => by rw [hother x (ne_of_mem_of_not_mem hx hl)]
      have hown : (b'.slot h).remainingQty = (b.slot h).remainingQty - qty := by
        rw [hslot, if_pos rfl]
      simp only [queueQty, hq, map_append, map_cons, sum_append, sum_cons,
        hrest _ hnodup.1.1, hrest _ hnodup.1.2, hown]
      omega
    have hge : qty ≤ b.queueQty (q u) := hle.trans (hb.qty_le_queueQty hmem)
    have hfits := hl.fits
    exact
      { path := hnext ▸ hl.path
        back := hprev ▸ hl.back
        head := by rw [hlevel]; exact hl.head
        tail := by rw [hlevel]; exact hl.tail
        tick := fun x hx => (hdata x).1.trans (hl.tick x hx)
        orderCount := by rw [hlevel]; exact hl.orderCount
        count := fun s => by
          rw [hlevel]
          simpa only [hdata] using hl.count s
        totalQty := by
          rw [hlevel, hsum, hl.totalQty]
          exact sat64_of_nonneg (by omega) (by omega)
        nonneg := fun x hx => by
          rw [hslot]
          split_ifs
          · exact Int.sub_nonneg.2 hle
          · exact hl.nonneg x hx
        fits := by omega
        occTest := fun s => by
          rw [hlevel]
          exact hl.occTest s }
  · refine hl.congr (update_of_ne hu _ _) (fun _ => rfl) (hnext ▸ hl.path)
      (hprev ▸ hl.back) fun x hx => ?_
    have hne : x ≠ h := fun heq => hu (hb.eq_of_mem (heq ▸ hx) hmem)
    rw [hother x hne]
    exact ⟨rfl, rfl, rfl⟩

end Rsx.Book.Orderbook
