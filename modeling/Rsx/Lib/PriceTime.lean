import Mathlib

/-!
# Price-time priority

A priority list is sorted by a key, and among equal keys keeps an order of arrival.  Such a list is
determined by its sublists of equal key.  `consumeIf` takes a quantity out of a list from the front,
skipping what a predicate excludes and never using more than a given number of elements; `consume`
excludes nothing.
-/

namespace Rsx.PriceTime

open List

section Sorted

variable {α κ : Type*} [LinearOrder κ] {key : α → κ} {l l₁ l₂ : List α}

def Sorted (key : α → κ) (l : List α) : Prop :=
  l.Pairwise fun a b => key a ≤ key b

theorem Sorted.tail {a : α} (h : Sorted key (a :: l)) : Sorted key l :=
  (pairwise_cons.1 h).2

theorem Sorted.filter (h : Sorted key l) (p : α → Bool) : Sorted key (l.filter p) :=
  Pairwise.filter p h

theorem Sorted.head_le {a b : α} (h : Sorted key (a :: l)) (hb : b ∈ a :: l) : key a ≤ key b := by
  rcases mem_cons.1 hb with rfl | hb
  · exact le_rfl
  · exact (pairwise_cons.1 h).1 b hb

/-- **A priority list is determined by its queues.** -/
theorem Sorted.eq_of_filter_eq (h₁ : Sorted key l₁) (h₂ : Sorted key l₂)
    (h : ∀ k, (l₁.filter fun a => key a = k) = l₂.filter fun a => key a = k) : l₁ = l₂ := by
  have hmem : ∀ a, a ∈ l₁ ↔ a ∈ l₂ := by
    intro a
    have := congrArg (a ∈ ·) (h (key a))
    simpa using this
  induction l₁ generalizing l₂ with
  | nil =>
    symm
    rw [eq_nil_iff_forall_not_mem]
    exact fun a ha => not_mem_nil ((hmem a).2 ha)
  | cons a l ih =>
    cases l₂ with
    | nil => exact absurd ((hmem a).1 mem_cons_self) not_mem_nil
    | cons b l' =>
      -- Both heads have the least key, so they head the same queue.
      have hkey : key b = key a :=
        le_antisymm (h₂.head_le ((hmem a).1 mem_cons_self))
          (h₁.head_le ((hmem b).2 mem_cons_self))
      have hab : a = b := by
        have hq := h (key a)
        rw [filter_cons_of_pos (by simp), filter_cons_of_pos (by simp [hkey])] at hq
        exact (cons.inj hq).1
      subst hab
      have htail : ∀ k, (l.filter fun x => key x = k) = l'.filter fun x => key x = k := by
        intro k
        have hq := h k
        by_cases hk : key a = k
        · rw [filter_cons_of_pos (by simp [hk]), filter_cons_of_pos (by simp [hk])] at hq
          exact (cons.inj hq).2
        · rw [filter_cons_of_neg (by simp [hk]), filter_cons_of_neg (by simp [hk])] at hq
          exact hq
      rw [ih h₁.tail h₂.tail htail fun x => by
        have := congrArg (x ∈ ·) (htail (key x))
        simpa using this]

def arrange (key : α → κ) (l : List α) : List α :=
  l.insertionSort fun a b => key a ≤ key b

theorem perm_arrange (key : α → κ) (l : List α) : (arrange key l).Perm l :=
  perm_insertionSort _ l

@[simp] theorem mem_arrange {a : α} : a ∈ arrange key l ↔ a ∈ l :=
  (perm_arrange key l).mem_iff

theorem sorted_arrange (key : α → κ) (l : List α) : Sorted key (arrange key l) := by
  exact pairwise_insertionSort _ l

theorem filter_orderedInsert (a : α) (l : List α) (k : κ) :
    ((l.orderedInsert (fun a b => key a ≤ key b) a).filter fun x => key x = k) =
      (a :: l).filter fun x => key x = k := by
  induction l with
  | nil => rfl
  | cons b l ih =>
    rw [orderedInsert_cons]
    split_ifs with hle
    · rfl
    · -- `b` has a smaller key than `a`, so at most one of them survives.
      have hne : key a = k → key b ≠ k := fun ha hb => hle (ha.trans hb.symm).le
      simp only [filter_cons, ih, decide_eq_true_eq]
      split_ifs with hb ha
      · exact absurd hb (hne ha)
      · rfl
      · rfl
      · rfl

theorem filter_arrange (l : List α) (k : κ) :
    ((arrange key l).filter fun x => key x = k) = l.filter fun x => key x = k := by
  induction l with
  | nil => rfl
  | cons a l ih =>
    have hinsert : ((arrange key (a :: l)).filter fun x => key x = k) = _ :=
      filter_orderedInsert a (arrange key l) k
    rw [hinsert, filter_cons, ih, filter_cons]

theorem Sorted.arrange_eq (h : Sorted key l) : arrange key l = l :=
  Pairwise.insertionSort_eq h

theorem arrange_filter (p : α → Bool) : arrange key (l.filter p) = (arrange key l).filter p := by
  refine (sorted_arrange key _).eq_of_filter_eq ((sorted_arrange key l).filter p) fun k => ?_
  rw [filter_arrange, filter_filter, filter_filter]
  simp only [Bool.and_comm _ (p _)]
  rw [← filter_filter, ← filter_filter, filter_arrange]

theorem arrange_map {β : Type*} (f : β → α) (l : List β) :
    arrange key (l.map f) = (arrange (fun b => key (f b)) l).map f :=
  (map_insertionSort _ _ f l fun _ _ _ _ => Iff.rfl).symm

theorem arrange_eq_group {p : α → Bool} {c : κ} (hmin : ∀ a ∈ l, p a → c ≤ key a) :
    arrange key (l.filter p) = (l.filter fun a => p a && decide (key a = c)) ++
      arrange key (l.filter fun a => p a && decide (key a ≠ c)) := by
  refine (sorted_arrange key _).eq_of_filter_eq ?_ fun k => ?_
  · refine pairwise_append.2 ⟨?_, sorted_arrange key _, ?_⟩
    · refine pairwise_of_forall_mem_list fun a ha b hb => ?_
      simp only [mem_filter, Bool.and_eq_true, decide_eq_true_eq] at ha hb
      exact (ha.2.2.trans hb.2.2.symm).le
    · intro a ha b hb
      simp only [mem_arrange, mem_filter, Bool.and_eq_true, decide_eq_true_eq] at ha hb
      exact ha.2.2.le.trans (hmin b hb.1 hb.2.1)
  · rw [filter_append, filter_arrange, filter_arrange, filter_filter, filter_filter, filter_filter]
    by_cases hk : k = c
    · subst hk
      have hrest : (l.filter fun a => decide (key a = k) && (p a && decide (key a ≠ k))) = [] :=
        filter_eq_nil_iff.2 fun a _ => by by_cases ha : key a = k <;> simp [ha]
      rw [hrest, append_nil]
      exact filter_congr fun a _ => by by_cases ha : key a = k <;> simp [ha]
    · have hgroup : (l.filter fun a => decide (key a = k) && (p a && decide (key a = c))) = [] :=
        filter_eq_nil_iff.2 fun a _ => by by_cases ha : key a = k <;> simp [ha, hk]
      rw [hgroup, nil_append]
      exact filter_congr fun a _ => by by_cases ha : key a = k <;> simp [ha, hk]

def place (key : α → κ) (a : α) (l : List α) : List α :=
  (l.filter fun b => key b ≤ key a) ++ a :: l.filter fun b => ¬ key b ≤ key a

theorem Sorted.place (h : Sorted key l) (a : α) : Sorted key (place key a l) := by
  refine pairwise_append.2 ⟨h.filter _, pairwise_cons.2 ⟨?_, h.filter _⟩, ?_⟩
  · intro b hb
    have := (mem_filter.1 hb).2
    simp only [not_le, decide_eq_true_eq] at this
    exact this.le
  · intro x hx b hb
    have hxa : key x ≤ key a := by simpa using (mem_filter.1 hx).2
    rcases mem_cons.1 hb with rfl | hb
    · exact hxa
    · have hab : key a < key b := by simpa using (mem_filter.1 hb).2
      exact hxa.trans hab.le

theorem mem_place {a b : α} : b ∈ place key a l ↔ b = a ∨ b ∈ l := by
  unfold PriceTime.place
  simp only [mem_append, mem_cons, mem_filter, decide_eq_true_eq]
  tauto

theorem perm_place (key : α → κ) (a : α) (l : List α) : (place key a l).Perm (a :: l) := by
  refine perm_middle.trans (Perm.cons a ?_)
  have hperm := filter_append_perm (fun b => decide (key b ≤ key a)) l
  simp only [← decide_not] at hperm
  exact hperm

theorem filter_place (a : α) (l : List α) (k : κ) :
    ((place key a l).filter fun x => key x = k) = (l ++ [a]).filter fun x => key x = k := by
  rw [PriceTime.place, filter_append, filter_append, filter_filter,
    filter_cons, filter_filter, filter_cons]
  by_cases hk : key a = k
  · subst hk
    have hbehind : (l.filter fun b => decide (key b = key a) && decide ¬ key b ≤ key a) = [] :=
      filter_eq_nil_iff.2 fun b _ => by by_cases hb : key b = key a <;> simp [hb]
    have hfront : (l.filter fun b => decide (key b = key a) && decide (key b ≤ key a)) =
        l.filter fun b => key b = key a :=
      filter_congr fun b _ => by by_cases hb : key b = key a <;> simp [hb]
    rw [hbehind, hfront]
    simp
  · simp only [hk, decide_false, Bool.false_eq_true, if_false, filter_nil, append_nil]
    -- All of the queue is on one side of `a`.
    by_cases hle : k ≤ key a
    · have hbehind : (l.filter fun b => decide (key b = k) && decide ¬ key b ≤ key a) = [] :=
        filter_eq_nil_iff.2 fun b _ => by by_cases hb : key b = k <;> simp [hb, hle]
      rw [hbehind, append_nil]
      exact filter_congr fun b _ => by by_cases hb : key b = k <;> simp [hb, hle]
    · have hfront : (l.filter fun b => decide (key b = k) && decide (key b ≤ key a)) = [] :=
        filter_eq_nil_iff.2 fun b _ => by by_cases hb : key b = k <;> simp [hb, hle]
      rw [hfront, nil_append]
      exact filter_congr fun b _ => by by_cases hb : key b = k <;> simp [hb, hle]

end Sorted

class HasQty (α : Type*) where
  qty : α → Int
  setQty : α → Int → α
  qty_setQty : ∀ a q, qty (setQty a q) = q

open HasQty

/-- What consuming from a list leaves: the fills, the list, the elements still allowed and the
quantity still wanted. -/
structure Outcome (α : Type*) where
  fills : List (α × Int)
  rest : List α
  budget : Nat
  left : Int

section Consume

variable {α : Type*} [HasQty α]

/-- Consume up to `r` from the elements of a list that satisfy `p`, at most `k` of them entirely. -/
def consumeIf (p : α → Bool) : Nat → Int → List α → Outcome α
  | k, r, [] => ⟨[], [], k, r⟩
  | k, r, a :: l =>
    if k = 0 ∨ r ≤ 0 then ⟨[], a :: l, k, r⟩
    else if p a then
      if qty a ≤ r then
        let o := consumeIf p (k - 1) (r - qty a) l
        { o with fills := (a, qty a) :: o.fills }
      else ⟨[(a, r)], setQty a (qty a - r) :: l, k, 0⟩
    else
      let o := consumeIf p k r l
      { o with rest := a :: o.rest }

def consume (k : Nat) (r : Int) (l : List α) : Outcome α :=
  consumeIf (fun _ => true) k r l

def total (l : List α) : Int :=
  (l.map qty).sum

variable {p : α → Bool} {k : Nat} {r : Int} {l l₁ l₂ : List α}

@[simp] theorem consume_nil : consume k r ([] : List α) = ⟨[], [], k, r⟩ :=
  rfl

theorem consume_cons (a : α) : consume k r (a :: l) =
      if k = 0 ∨ r ≤ 0 then ⟨[], a :: l, k, r⟩
      else if qty a ≤ r then
        let o := consume (k - 1) (r - qty a) l
        { o with fills := (a, qty a) :: o.fills }
      else ⟨[(a, r)], setQty a (qty a - r) :: l, k, 0⟩ :=
  rfl

@[simp] theorem total_nil : total ([] : List α) = 0 :=
  rfl

@[simp] theorem total_cons (a : α) : total (a :: l) = qty a + total l := by
  simp [total]

theorem total_append : total (l₁ ++ l₂) = total l₁ + total l₂ := by
  simp [total]

theorem total_nonneg (h : ∀ a ∈ l, 0 < qty a) : 0 ≤ total l := by
  refine sum_nonneg fun x hx => ?_
  obtain ⟨a, ha, rfl⟩ := mem_map.1 hx
  exact (h a ha).le

theorem total_le_total_take (hlen : l₁.length ≤ k) (hpos : ∀ a ∈ l₂, 0 < qty a) :
    total l₁ ≤ total ((l₁ ++ l₂).take k) := by
  have hnonneg := total_nonneg fun a ha => hpos a (mem_of_mem_take (i := k - l₁.length) ha)
  rw [take_append, take_of_length_le hlen, total_append]
  omega

theorem consumeIf_of_spent (h : k = 0 ∨ r ≤ 0) : consumeIf p k r l = ⟨[], l, k, r⟩ := by
  cases l with
  | nil => rfl
  | cons => rw [consumeIf, if_pos h]

theorem consumeIf_congr {p' : α → Bool} (h : ∀ a ∈ l, p a = p' a) :
    consumeIf p k r l = consumeIf p' k r l := by
  induction l generalizing k r with
  | nil => rfl
  | cons a l ih =>
    have ih := fun k r => ih (k := k) (r := r) fun x hx => h x (mem_cons_of_mem a hx)
    simp only [consumeIf, h a mem_cons_self, ih]

theorem consumeIf_filter (hp : ∀ a q, p (setQty a q) = p a) :
    (consumeIf p k r l).fills = (consume k r (l.filter p)).fills ∧
      (consumeIf p k r l).budget = (consume k r (l.filter p)).budget ∧
      (consumeIf p k r l).left = (consume k r (l.filter p)).left ∧
      (consumeIf p k r l).rest.filter p = (consume k r (l.filter p)).rest := by
  induction l generalizing k r with
  | nil => simp [consumeIf]
  | cons a l ih =>
    by_cases hspent : k = 0 ∨ r ≤ 0
    · rw [consumeIf_of_spent hspent, consume, consumeIf_of_spent hspent]
      simp
    by_cases ha : p a
    · rw [filter_cons_of_pos ha, consumeIf, consume_cons]
      split_ifs with hfull
      · obtain ⟨hf, hb, hl, hr⟩ := ih (k := k - 1) (r := r - qty a)
        simp only [hf, hb, hl, hr, and_self]
      · simp [hp, ha]
    · rw [consumeIf, if_neg hspent, if_neg ha]
      obtain ⟨hf, hb, hl, hr⟩ := ih (k := k) (r := r)
      simp only [hf, hb, hl, filter_cons_of_neg ha, hr, and_self]

theorem filter_rest_of_disjoint {c : α → Bool} (hc : ∀ a, c a → ¬ p a)
    (hset : ∀ a q, c (setQty a q) = c a) :
    (consumeIf p k r l).rest.filter c = l.filter c := by
  induction l generalizing k r with
  | nil => rfl
  | cons a l ih =>
    rw [consumeIf]
    split_ifs with hspent ha hfull
    · rfl
    · have hca : ¬ c a := fun h => hc a h ha
      rw [filter_cons_of_neg hca]
      exact ih
    · have hca : ¬ c a := fun h => hc a h ha
      rw [filter_cons_of_neg hca, filter_cons_of_neg (by rw [hset]; exact hca)]
    · simp only [filter_cons, ih]

theorem consume_append_of_covered (hlen : l₁.length ≤ k) (htotal : total l₁ ≤ r)
    (hpos : ∀ a ∈ l₁, 0 < qty a) :
    consume k r (l₁ ++ l₂) =
      { consume (k - l₁.length) (r - total l₁) l₂ with
        fills := (l₁.map fun a => (a, qty a)) ++
          (consume (k - l₁.length) (r - total l₁) l₂).fills } := by
  induction l₁ generalizing k r with
  | nil => simp
  | cons a l ih =>
    have ha := hpos a mem_cons_self
    have hrest := fun x hx => hpos x (mem_cons_of_mem a hx)
    have hnonneg := total_nonneg hrest
    rw [total_cons] at htotal ⊢
    rw [length_cons] at hlen ⊢
    rw [cons_append, consume_cons, if_neg (by omega), if_pos (by omega),
      ih (by omega) (by omega) hrest]
    simp only [map_cons, cons_append, Nat.sub_sub, Nat.add_comm 1, Int.sub_sub]

theorem consume_of_covered (hlen : l.length ≤ k) (htotal : total l ≤ r)
    (hpos : ∀ a ∈ l, 0 < qty a) :
    consume k r l = ⟨l.map fun a => (a, qty a), [], k - l.length, r - total l⟩ := by
  have h : consume k r (l ++ []) = _ := consume_append_of_covered hlen htotal hpos
  simpa using h

theorem consume_append_of_stopped (h : (consume k r l₁).budget = 0 ∨ (consume k r l₁).left ≤ 0) :
    consume k r (l₁ ++ l₂) =
      { consume k r l₁ with rest := (consume k r l₁).rest ++ l₂ } := by
  induction l₁ generalizing k r with
  | nil =>
    rw [consume_nil] at h
    rw [consume, consumeIf_of_spent h]
    rfl
  | cons a l ih =>
    rw [cons_append]
    rw [consume_cons] at h ⊢
    rw [consume_cons]
    split_ifs at h ⊢ with hspent hfull
    · rfl
    · have := ih h
      simp only [this]
    · rfl

theorem consume_rest (k : Nat) (r : Int) (l : List α) :
    (consume k r l).rest = [] ∨ (consume k r l).budget = 0 ∨ (consume k r l).left ≤ 0 := by
  induction l generalizing k r with
  | nil => exact .inl rfl
  | cons a l ih =>
    rw [consume_cons]
    split_ifs with hspent hfull
    · exact .inr hspent
    · exact ih (k - 1) (r - qty a)
    · exact .inr (.inr le_rfl)

theorem consume_of_not_stopped (hpos : ∀ a ∈ l, 0 < qty a)
    (h : ¬ ((consume k r l).budget = 0 ∨ (consume k r l).left ≤ 0)) :
    l.length ≤ k ∧ total l ≤ r := by
  induction l generalizing k r with
  | nil =>
    simp only [consume_nil, not_or] at h
    simp only [length_nil, total_nil]
    omega
  | cons a l ih =>
    rw [consume_cons] at h
    split_ifs at h with hspent hfull
    · exact absurd hspent h
    · have := ih (fun x hx => hpos x (mem_cons_of_mem a hx)) h
      rw [length_cons, total_cons]
      omega
    · simp at h

theorem consume_append (hpos : ∀ a ∈ l₁, 0 < qty a) :
    let o := consume k r l₁
    let o' := consume o.budget o.left (o.rest ++ l₂)
    consume k r (l₁ ++ l₂) = { o' with fills := o.fills ++ o'.fills } := by
  intro o o'
  by_cases hstop : o.budget = 0 ∨ o.left ≤ 0
  · have ho' : o' = _ := consumeIf_of_spent hstop
    rw [consume_append_of_stopped hstop, ho', append_nil]
  · obtain ⟨hlen, htotal⟩ := consume_of_not_stopped hpos hstop
    have ho : o = _ := consume_of_covered hlen htotal hpos
    simp only [o', ho, nil_append]
    exact consume_append_of_covered hlen htotal hpos

theorem consume_lengths (h : 0 < (consume k r l).left) :
    (consume k r l).rest.length + (consume k r l).fills.length = l.length ∧
      (consume k r l).budget + (consume k r l).fills.length = k := by
  induction l generalizing k r with
  | nil => exact ⟨rfl, rfl⟩
  | cons a l ih =>
    rw [consume_cons] at h ⊢
    split_ifs at h ⊢ with hspent hfull
    · exact ⟨rfl, rfl⟩
    · have := ih h
      simp only [length_cons]
      omega
    · exact absurd h (lt_irrefl 0)

theorem consume_rest_length_le : (consume k r l).rest.length ≤ l.length := by
  induction l generalizing k r with
  | nil => exact le_rfl
  | cons a l ih =>
    rw [consume_cons]
    split_ifs with hspent hfull
    · exact le_rfl
    · exact ih.trans (Nat.le_succ _)
    · exact le_rfl

theorem mem_of_mem_fills {fill : α × Int} (h : fill ∈ (consume k r l).fills) : fill.1 ∈ l := by
  induction l generalizing k r with
  | nil => exact absurd h not_mem_nil
  | cons a l ih =>
    rw [consume_cons] at h
    split_ifs at h with hspent hfull
    · exact absurd h not_mem_nil
    · rcases mem_cons.1 h with rfl | h
      · exact mem_cons_self
      · exact mem_cons_of_mem a (ih h)
    · rw [mem_singleton.1 h]
      exact mem_cons_self

theorem consume_fills_length (k : Nat) (r : Int) (l : List α) :
    (consume k r l).fills.length ≤ k := by
  induction l generalizing k r with
  | nil => exact Nat.zero_le k
  | cons a l ih =>
    rw [consume_cons]
    split_ifs with hspent hfull
    · exact Nat.zero_le k
    · have := ih (k - 1) (r - qty a)
      simp only [length_cons]
      omega
    · simp only [length_singleton]
      omega

theorem consume_left (k : Nat) (r : Int) (l : List α) :
    (consume k r l).left = r - ((consume k r l).fills.map Prod.snd).sum := by
  induction l generalizing k r with
  | nil => simp
  | cons a l ih =>
    rw [consume_cons]
    split_ifs with hspent hfull
    · simp
    · rw [ih]
      simp only [map_cons, sum_cons]
      omega
    · simp

theorem total_consume (k : Nat) (r : Int) (l : List α) :
    total (consume k r l).rest + r = total l + (consume k r l).left := by
  induction l generalizing k r with
  | nil => rfl
  | cons a l ih =>
    rw [consume_cons]
    split_ifs with hspent hfull
    · rfl
    · have := ih (k - 1) (r - qty a)
      rw [total_cons]
      simp only
      omega
    · simp only [total_cons, qty_setQty]
      omega

theorem consume_left_nonneg (hr : 0 ≤ r) : 0 ≤ (consume k r l).left := by
  induction l generalizing k r with
  | nil => exact hr
  | cons a l ih =>
    rw [consume_cons]
    split_ifs with hspent hfull
    · exact hr
    · exact ih (by omega)
    · exact le_rfl

theorem consume_left_le (hr : 0 ≤ r) (hpos : ∀ a ∈ l, 0 < qty a) : (consume k r l).left ≤ r := by
  induction l generalizing k r with
  | nil => exact le_rfl
  | cons a l ih =>
    have ha := hpos a mem_cons_self
    rw [consume_cons]
    split_ifs with hspent hfull
    · exact le_rfl
    · have := ih (k := k - 1) (r := r - qty a) (by omega)
        fun x hx => hpos x (mem_cons_of_mem a hx)
      simp only
      omega
    · exact hr

theorem consume_left_lt (hk : k ≠ 0) (hr : 0 < r) (hpos : ∀ a ∈ l, 0 < qty a) (hne : l ≠ []) :
    (consume k r l).left < r := by
  cases l with
  | nil => exact absurd rfl hne
  | cons a =>
    have ha := hpos a mem_cons_self
    rw [consume_cons, if_neg (by omega)]
    split_ifs with hfull
    · have := consume_left_le (k := k - 1) (r := r - qty a) (by omega)
        fun x hx => hpos x (mem_cons_of_mem a hx)
      simp only
      omega
    · exact hr

theorem consume_left_eq_zero_iff (hr : 0 ≤ r) (hpos : ∀ a ∈ l, 0 < qty a) :
    (consume k r l).left = 0 ↔ r ≤ total (l.take k) := by
  induction l generalizing k r with
  | nil =>
    rw [take_nil]
    exact ⟨fun h => h.le, fun h => le_antisymm h hr⟩
  | cons a l ih =>
    have hposl : ∀ a ∈ l, 0 < qty a := fun x hx => hpos x (mem_cons_of_mem _ hx)
    rw [consume_cons]
    split_ifs with hspent hfull
    · show r = 0 ↔ _
      rcases hspent with rfl | hr'
      · exact ⟨fun h => h.le, fun h => le_antisymm h hr⟩
      · have hnonneg := total_nonneg fun x hx => hpos x (mem_of_mem_take (i := k) hx)
        omega
    · obtain ⟨k, rfl⟩ : ∃ k', k = k' + 1 := ⟨k - 1, by omega⟩
      have := ih (k := k) (r := r - qty a) (by omega) hposl
      rw [take_succ_cons, total_cons]
      rw [Nat.add_sub_cancel, this]
      omega
    · obtain ⟨k, rfl⟩ : ∃ k', k = k' + 1 := ⟨k - 1, by omega⟩
      have hnonneg := total_nonneg fun x hx => hposl x (mem_of_mem_take (i := k) hx)
      rw [take_succ_cons, total_cons]
      show (0 : Int) = 0 ↔ _
      omega

theorem sorted_consume {κ : Type*} [LinearOrder κ] {key : α → κ}
    (hkey : ∀ a q, key (setQty a q) = key a) (h : Sorted key l) :
    Sorted key (consume k r l).rest := by
  induction l generalizing k r with
  | nil => exact h
  | cons a l ih =>
    rw [consume_cons]
    split_ifs with hspent hfull
    · exact h
    · exact ih h.tail
    · refine pairwise_cons.2 ⟨fun x hx => ?_, h.tail⟩
      rw [hkey]
      exact h.head_le (mem_cons_of_mem a hx)

theorem total_perm (h : l₁.Perm l₂) : total l₁ = total l₂ :=
  (h.map qty).sum_eq

theorem forall_rest {P : α → Prop} (hset : ∀ a q, P a → P (setQty a q)) (h : ∀ a ∈ l, P a) :
    ∀ a ∈ (consumeIf p k r l).rest, P a := by
  induction l generalizing k r with
  | nil => simp [consumeIf]
  | cons a l ih =>
    have ha := h a mem_cons_self
    have hl := fun x hx => h x (mem_cons_of_mem a hx)
    rw [consumeIf]
    split_ifs with hspent hp hfull
    · exact h
    · exact ih hl
    · exact forall_mem_cons.2 ⟨hset a _ ha, hl⟩
    · exact forall_mem_cons.2 ⟨ha, ih hl⟩

theorem fills_le_rest {κ : Type*} [LinearOrder κ] {key : α → κ}
    (hkey : ∀ a q, key (setQty a q) = key a) (h : Sorted key l) :
    ∀ f ∈ (consume k r l).fills, ∀ a ∈ (consume k r l).rest, key f.1 ≤ key a := by
  induction l generalizing k r with
  | nil => exact fun f hf => absurd hf not_mem_nil
  | cons a l ih =>
    have hhead : ∀ x ∈ l, key a ≤ key x := fun x hx => h.head_le (mem_cons_of_mem a hx)
    rw [consume_cons]
    split_ifs with hspent hfull
    · exact fun f hf => absurd hf not_mem_nil
    · intro f hf x hx
      rcases mem_cons.1 hf with rfl | hf
      · exact forall_rest (fun y q hy => (hkey y q).symm ▸ hy) hhead x hx
      · exact ih h.tail f hf x hx
    · intro f hf x hx
      rw [mem_singleton.1 hf]
      rcases mem_cons.1 hx with rfl | hx
      · rw [hkey]
      · exact hhead x hx

section Group

variable {κ : Type*} [LinearOrder κ] {key : α → κ} {c : κ}

theorem arrange_consumeIf_group (hp : ∀ a q, p (setQty a q) = p a)
    (hkey : ∀ a q, key (setQty a q) = key a) (hmin : ∀ a ∈ l, p a → c ≤ key a) :
    let group := fun a => p a && decide (key a = c)
    arrange key ((consumeIf group k r l).rest.filter p) = (consume k r (l.filter group)).rest ++
        arrange key (l.filter fun a => p a && decide (key a ≠ c)) := by
  intro group
  have hgroup : ∀ a q, group (setQty a q) = group a := fun a q => by simp only [group, hp, hkey]
  have hmin' : ∀ a ∈ (consumeIf group k r l).rest, p a → c ≤ key a :=
    forall_rest (fun a q ha => by rwa [hp, hkey]) hmin
  rw [arrange_eq_group hmin', (consumeIf_filter hgroup).2.2.2, filter_rest_of_disjoint]
  · intro a ha hcon
    simp only [group, Bool.and_eq_true, decide_eq_true_eq] at ha hcon
    exact ha.2 hcon.2
  · intro a q
    simp only [hp, hkey]

theorem consumeIf_of_covered (hp : ∀ a q, p (setQty a q) = p a)
    (hlen : (l.filter p).length ≤ k) (htotal : total (l.filter p) ≤ r)
    (hpos : ∀ a ∈ l, 0 < qty a) :
    let o := consume k r (arrange key (l.filter p))
    (consumeIf p k r l).fills.Perm o.fills ∧ (consumeIf p k r l).budget = o.budget ∧
      (consumeIf p k r l).left = o.left ∧ (consumeIf p k r l).rest.filter p = [] ∧ o.rest = [] := by
  intro o
  have hperm := perm_arrange key (l.filter p)
  have hpos₁ : ∀ a ∈ l.filter p, 0 < qty a := fun a ha => hpos a (mem_filter.1 ha).1
  have hpos₂ : ∀ a ∈ arrange key (l.filter p), 0 < qty a := fun a ha => hpos₁ a (mem_arrange.1 ha)
  have ho : o = _ := consume_of_covered (hperm.length_eq.trans_le hlen)
    ((total_perm hperm).trans_le htotal) hpos₂
  obtain ⟨hfills, hbudget, hleft, hrest⟩ := consumeIf_filter (k := k) (r := r) (l := l) hp
  rw [consume_of_covered hlen htotal hpos₁] at hfills hbudget hleft hrest
  rw [ho, hfills, hbudget, hleft, hrest, hperm.length_eq, total_perm hperm]
  exact ⟨(hperm.map _).symm, rfl, rfl, rfl, rfl⟩

end Group

theorem consumeIf_map {β : Type*} [HasQty β] (f : α → β) {p : β → Bool}
    (hqty : ∀ a, qty (f a) = qty a) (hset : ∀ a q, setQty (f a) q = f (setQty a q)) :
    consumeIf p k r (l.map f) =
      { fills := (consumeIf (p ∘ f) k r l).fills.map fun x => (f x.1, x.2)
        rest := (consumeIf (p ∘ f) k r l).rest.map f
        budget := (consumeIf (p ∘ f) k r l).budget
        left := (consumeIf (p ∘ f) k r l).left } := by
  induction l generalizing k r with
  | nil => rfl
  | cons a l ih =>
    rw [map_cons, consumeIf, consumeIf]
    simp only [Function.comp_apply, hqty, hset]
    split_ifs with hspent ha hfull
    · rfl
    · rw [ih]
      rfl
    · rfl
    · rw [ih]
      rfl

end Consume

end Rsx.PriceTime
