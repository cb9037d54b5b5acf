import Mathlib

/-!
# Ladders

A ladder is a list whose keys ascend strictly.  It is known by its members, and an entry can be put
in the place of its key or removed from it.  A copy that started from the first entries of a ladder
and takes part in its changes tracks it: it has those entries whose keys were told, and the first
ones are.  -/

namespace Rsx.Ladder

open Function List

variable {α K : Type*} [LinearOrder K] {key : α → K} {l l' : List α} {a b : α} {k : K}

def Sorted (key : α → K) (l : List α) : Prop :=
  l.Pairwise fun a b => key a < key b

/-- Put an entry in its place; it replaces the one with its key. -/
def put (key : α → K) (a : α) : List α → List α
  | [] => [a]
  | x :: l =>
    if key x = key a then a :: l else if key a < key x then a :: x :: l else x :: put key a l

def remove (key : α → K) (k : K) : List α → List α
  | [] => []
  | x :: l => if key x = k then l else if k < key x then x :: l else x :: remove key k l

theorem put_cons (x : α) (l : List α) : put key a (x :: l) =
    if key x = key a then a :: l else if key a < key x then a :: x :: l else x :: put key a l :=
  rfl

theorem remove_cons (x : α) (l : List α) : remove key k (x :: l) =
    if key x = k then l else if k < key x then x :: l else x :: remove key k l :=
  rfl

theorem Sorted.tail (h : Sorted key (a :: l)) : Sorted key l :=
  h.of_cons

section

variable (h : Sorted key l)
include h

theorem put_eq (a : α) : put key a l =
    (l.filter fun b => key b < key a) ++ a :: l.filter fun b => key a < key b := by
  induction l with
  | nil => rfl
  | cons x l ih =>
    have hrest : ∀ y ∈ l, key x < key y := fun y hy => rel_of_pairwise_cons h hy
    rw [put_cons]
    by_cases hlt : key x < key a
    · rw [if_neg hlt.ne, if_neg hlt.asymm, ih h.tail, filter_cons, if_pos (decide_eq_true hlt),
        filter_cons, if_neg (by simpa using hlt.le)]
      rfl
    · have habove : ∀ y ∈ l, key a < key y := fun y hy => (not_lt.1 hlt).trans_lt (hrest y hy)
      have hbelow : (x :: l).filter (fun b => key b < key a) = [] := by
        refine filter_eq_nil_iff.2 fun y hy => ?_
        rcases mem_cons.1 hy with rfl | hy
        · simpa using hlt
        · simpa using (habove y hy).le
      rw [hbelow, nil_append, filter_cons,
        filter_eq_self.2 fun y hy => decide_eq_true (habove y hy)]
      by_cases heq : key x = key a
      · rw [if_pos heq, if_neg (by simp [heq])]
      · have hgt := lt_of_le_of_ne (not_lt.1 hlt) (Ne.symm heq)
        rw [if_neg heq, if_pos hgt, if_pos (decide_eq_true hgt)]

theorem mem_put : b ∈ put key a l ↔ b = a ∨ b ∈ l ∧ key b ≠ key a := by
  rw [put_eq h, mem_append, mem_cons, mem_filter, mem_filter, decide_eq_true_eq, decide_eq_true_eq,
    ← lt_or_lt_iff_ne, and_or_left]
  tauto

theorem Sorted.put (a : α) : Sorted key (put key a l) := by
  rw [put_eq h]
  refine pairwise_append.2 ⟨List.Pairwise.filter _ h, pairwise_cons.2 ⟨fun y hy => ?_,
    List.Pairwise.filter _ h⟩, fun x hx y hy => ?_⟩
  · exact of_decide_eq_true (mem_filter.1 hy).2
  · have hlt := of_decide_eq_true (mem_filter.1 hx).2
    rcases mem_cons.1 hy with rfl | hy
    · exact hlt
    · exact hlt.trans (of_decide_eq_true (mem_filter.1 hy).2)

theorem remove_eq_filter (k : K) : remove key k l = l.filter fun b => key b ≠ k := by
  induction l with
  | nil => rfl
  | cons x l ih =>
    have hrest : ∀ y ∈ l, key x < key y := fun y hy => rel_of_pairwise_cons h hy
    rw [remove_cons]
    by_cases heq : key x = k
    · rw [if_pos heq, filter_cons_of_neg (by simpa using heq)]
      exact (filter_eq_self.2 fun y hy => decide_eq_true (heq ▸ (hrest y hy).ne')).symm
    · rw [if_neg heq, filter_cons_of_pos (by simpa using heq)]
      split_ifs with hlt
      · rw [filter_eq_self.2 fun y hy => decide_eq_true (hlt.trans (hrest y hy)).ne']
      · rw [ih h.tail]

theorem mem_remove : b ∈ remove key k l ↔ b ∈ l ∧ key b ≠ k := by
  rw [remove_eq_filter h, mem_filter, decide_eq_true_eq]

theorem Sorted.remove (k : K) : Sorted key (remove key k l) := by
  rw [remove_eq_filter h]
  exact List.Pairwise.filter _ h

theorem Sorted.nodup : l.Nodup :=
  h.imp fun hlt heq => hlt.ne (congrArg key heq)

/-- **Extensionality.**  Ladders with the same members are equal. -/
theorem Sorted.ext (h' : Sorted key l') (hmem : ∀ a, a ∈ l ↔ a ∈ l') : l = l' := by
  have hperm : l.Perm l' := (perm_ext_iff_of_nodup h.nodup h'.nodup).2 hmem
  exact hperm.eq_of_pairwise (fun _ _ _ _ hab hba => absurd hba hab.asymm) h h'

theorem Sorted.sublist (hsub : l'.Sublist l) : Sorted key l' :=
  List.Pairwise.sublist hsub h

theorem Sorted.eq_of_key (ha : a ∈ l) (hb : b ∈ l) (hkey : key a = key b) : a = b := by
  have hkeys : (l.map key).Nodup := pairwise_map.2 (h.imp fun hlt => hlt.ne)
  exact inj_on_of_nodup_map hkeys ha hb hkey

end

theorem sorted_insertionSort (h : (l.map key).Nodup) :
    Sorted key (l.insertionSort fun a b => key a ≤ key b) := by
  have hle := pairwise_insertionSort (fun a b => key a ≤ key b) l
  have hne : (l.insertionSort fun a b => key a ≤ key b).Pairwise fun a b => key a ≠ key b :=
    pairwise_map.1 (((perm_insertionSort _ l).map key).nodup_iff.2 h)
  exact hle.imp₂ (fun _ _ hab hne => lt_of_le_of_ne hab hne) hne

theorem take_filter_eq_take {c : α → Bool} {d : Nat} (h : ∀ a ∈ l.take d, c a = true) :
    (l.filter c).take d = l.take d := by
  induction l generalizing d with
  | nil => rfl
  | cons x l ih =>
    cases d with
    | zero => rfl
    | succ =>
      have hx : c x = true := h x (by simp)
      rw [filter_cons_of_pos hx, take_succ_cons, take_succ_cons, ih fun a ha => h a (by simp [ha])]

/-! ## Copies -/

/-- The copy `l'` has the entries of `l` whose keys were told, and the first `d` were. -/
def Tracks (key : α → K) (d : Nat) (l l' : List α) : Prop :=
  ∃ told : K → Bool, l' = l.filter (fun a => told (key a)) ∧ ∀ a ∈ l.take d, told (key a) = true

variable {d : Nat}

omit [LinearOrder K] in
/-- **The head of a copy.** -/
theorem Tracks.take_eq (h : Tracks key d l l') : l'.take d = l.take d := by
  obtain ⟨_, rfl, htop⟩ := h
  exact take_filter_eq_take htop

omit [LinearOrder K] in
theorem Tracks.eq_of_length_le (h : Tracks key d l l') (hle : l.length ≤ d) : l' = l := by
  obtain ⟨_, rfl, htop⟩ := h
  rw [take_of_length_le hle] at htop
  exact filter_eq_self.2 htop

theorem tracks_take (h : Sorted key l) (d : Nat) : Tracks key d l (l.take d) := by
  refine ⟨fun k => decide (k ∈ (l.take d).map key), ?_, fun a ha => ?_⟩
  · refine (h.sublist (take_sublist d l)).ext (h.sublist filter_sublist) fun a => ?_
    rw [mem_filter, decide_eq_true_eq]
    constructor
    · exact fun ha => ⟨mem_of_mem_take ha, mem_map_of_mem ha⟩
    · rintro ⟨ha, hkey⟩
      obtain ⟨_, hb, hkey⟩ := mem_map.1 hkey
      rwa [h.eq_of_key ha (mem_of_mem_take hb) hkey.symm]
  · exact decide_eq_true (mem_map_of_mem ha)

theorem mem_take_put (hb : b ∈ (put key a l).take d) : b = a ∨ b ∈ l.take d := by
  induction l generalizing d with
  | nil => exact .inl (mem_singleton.1 (mem_of_mem_take hb))
  | cons x l ih =>
    cases d with
    | zero => exact absurd hb not_mem_nil
    | succ d =>
      unfold put at hb
      split_ifs at hb
      · rcases mem_cons.1 hb with hb | hb
        · exact .inl hb
        · exact .inr (mem_cons_of_mem _ hb)
      · rcases mem_cons.1 hb with hb | hb
        · exact .inl hb
        · exact .inr (take_subset_take_left _ (Nat.le_succ d) hb)
      · rcases mem_cons.1 hb with rfl | hb
        · exact .inr (mem_cons_self ..)
        · exact (ih hb).imp_right (mem_cons_of_mem _)

theorem mem_take_remove (hb : b ∈ (remove key k l).take d) :
    b ∈ l.take d ∨ k ∈ (l.take d).map key ∧ b ∈ l[d]? := by
  induction l generalizing d with
  | nil => exact absurd (mem_of_mem_take hb) not_mem_nil
  | cons x l ih =>
    cases d with
    | zero => exact absurd hb not_mem_nil
    | succ d =>
      unfold remove at hb
      split_ifs at hb with heq hlt
      · -- The entry behind the first `d` moves up.
        rw [take_add_one, mem_append] at hb
        rcases hb with hb | hb
        · exact .inl (mem_cons_of_mem _ hb)
        · refine .inr ⟨mem_cons.2 (.inl heq.symm), ?_⟩
          exact Option.mem_toList.1 hb
      · exact .inl hb
      · rcases mem_cons.1 hb with rfl | hb
        · exact .inl (mem_cons_self ..)
        · rcases ih hb with hb | ⟨hk, hb⟩
          · exact .inl (mem_cons_of_mem _ hb)
          · exact .inr ⟨mem_cons_of_mem _ hk, by rwa [List.getElem?_cons_succ]⟩

theorem Tracks.put (h : Tracks key d l l') (hl : Sorted key l) (a : α) :
    Tracks key d (put key a l) (put key a l') := by
  obtain ⟨told, rfl, htop⟩ := h
  have hfilter : Sorted key (l.filter fun b => told (key b)) := hl.sublist filter_sublist
  refine ⟨update told (key a) true, ?_, fun b hb => ?_⟩
  · refine (hfilter.put a).ext ((hl.put a).sublist filter_sublist) fun b => ?_
    rw [mem_put hfilter, mem_filter, mem_filter, mem_put hl]
    by_cases hkey : key b = key a
    · simp [hkey]
    · simp only [ne_eq, hkey, not_false_eq_true, and_true, update_of_ne hkey]
      constructor
      · rintro (rfl | hb)
        · exact absurd rfl hkey
        · exact ⟨.inr hb.1, hb.2⟩
      · rintro ⟨rfl | hb, htold⟩
        · exact absurd rfl hkey
        · exact .inr ⟨hb, htold⟩
  · rcases mem_take_put hb with rfl | hb
    · exact update_self ..
    · rw [update_apply]
      split_ifs
      · rfl
      · exact htop b hb

theorem Tracks.remove (h : Tracks key d l l') (hl : Sorted key l)
    (hnext : k ∈ (l.take d).map key → ∀ a ∈ l[d]?, a ∈ l') :
    Tracks key d (remove key k l) (remove key k l') := by
  obtain ⟨told, rfl, htop⟩ := h
  have hfilter : Sorted key (l.filter fun b => told (key b)) := hl.sublist filter_sublist
  refine ⟨told, ?_, fun b hb => ?_⟩
  · refine (hfilter.remove k).ext ((hl.remove k).sublist filter_sublist) fun b => ?_
    rw [mem_remove hfilter, mem_filter, mem_filter, mem_remove hl]
    tauto
  · rcases mem_take_remove hb with hb | ⟨hk, hb⟩
    · exact htop b hb
    · exact (mem_filter.1 (hnext hk b hb)).2

end Rsx.Ladder
