import Mathlib

/-!
# Families of lists

A family of `n` buckets, given as a function from the bucket's index to its list, with the list of
all elements and what changing one bucket does to it.
-/

namespace Rsx.Buckets

open Function List

variable {α : Type*} {n t u : Nat} {q : Nat → List α} {a : α}

def contents (n : Nat) (q : Nat → List α) : List α :=
  (range n).flatMap q

theorem mem_contents : a ∈ contents n q ↔ ∃ t < n, a ∈ q t := by
  simp [contents]

theorem contents_const_nil : contents n (fun _ => ([] : List α)) = [] := by
  simp [contents]

theorem contents_update_perm (ht : t < n) (l : List α) :
    (contents n (update q t l)).Perm (l ++ contents n (update q t [])) := by
  have hsplit : ∀ l : List α,
      (contents n (update q t l)).Perm (l ++ ((range n).erase t).flatMap q) := by
    intro l
    refine ((perm_cons_erase (mem_range.2 ht)).flatMap_right _).trans ?_
    rw [flatMap_cons, update_self,
      flatMap_congr fun u hu => update_of_ne (nodup_range.mem_erase_iff.1 hu).1 l q]
  exact (hsplit l).trans ((hsplit []).symm.append_left l)

theorem contents_perm (ht : t < n) : (contents n q).Perm (q t ++ contents n (update q t [])) := by
  simpa only [update_eq_self] using contents_update_perm (q := q) ht (q t)

theorem nodup_bucket (h : (contents n q).Nodup) (ht : t < n) : (q t).Nodup :=
  (nodup_append.1 ((contents_perm ht).nodup_iff.1 h)).1

theorem eq_of_mem (h : (contents n q).Nodup) (ht : t < n) (hu : u < n) (hat : a ∈ q t)
    (hau : a ∈ q u) : t = u := by
  by_contra hne
  have hdisj := (nodup_append.1 ((contents_perm ht).nodup_iff.1 h)).2.2
  have hmem : a ∈ contents n (update q t []) :=
    mem_contents.2 ⟨u, hu, by rwa [update_of_ne (Ne.symm hne)]⟩
  exact hdisj a hat a hmem rfl

theorem filter_contents {c : α → Bool} (hu : u < n) (h : ∀ t, t ≠ u → ∀ a ∈ q t, ¬ c a) :
    (contents n q).filter c = (q u).filter c := by
  have hnil : ∀ t, t ≠ u → (q t).filter c = [] := fun t ht =>
    filter_eq_nil_iff.2 (h t ht)
  unfold contents
  rw [filter_flatMap]
  induction n with
  | zero => omega
  | succ n ih =>
    rw [range_succ, flatMap_append, flatMap_singleton]
    by_cases hlt : u < n
    · rw [ih hlt, hnil n (by omega), append_nil]
    · obtain rfl : u = n := by omega
      have hbefore : (range u).flatMap (fun t => (q t).filter c) = [] := by
        rw [flatMap_eq_nil_iff]
        intro t ht
        exact hnil t (by have := mem_range.1 ht; omega)
      rw [hbefore, nil_append]

theorem countP_range_change (p p' : Nat → Bool) {h : Nat} (hh : h < n)
    (hsame : ∀ x, x ≠ h → p' x = p x) :
    (range n).countP p' + (if p h then 1 else 0) =
      (range n).countP p + (if p' h then 1 else 0) := by
  have hperm := perm_cons_erase (mem_range.2 hh)
  have hrest : ((range n).erase h).countP p' = ((range n).erase h).countP p :=
    countP_congr fun x hx => by rw [hsame x (nodup_range.mem_erase_iff.1 hx).1]
  rw [hperm.countP_eq, hperm.countP_eq, countP_cons, countP_cons, hrest]
  omega

theorem sum_range_change (f f' : Nat → Int) {h : Nat} (hh : h < n)
    (hsame : ∀ x, x ≠ h → f' x = f x) :
    ((range n).map f').sum + f h = ((range n).map f).sum + f' h := by
  have hperm := perm_cons_erase (mem_range.2 hh)
  have hrest : ((range n).erase h).map f' = ((range n).erase h).map f :=
    map_congr_left fun x hx => hsame x (nodup_range.mem_erase_iff.1 hx).1
  rw [(hperm.map f').sum_eq, (hperm.map f).sum_eq, map_cons, map_cons, sum_cons, sum_cons, hrest]
  omega

theorem sum_range_filter {p : Nat → Bool} (f : Nat → Int) (hzero : ∀ x, p x = false → f x = 0) :
    ((range n).map f).sum = (((range n).filter p).map f).sum := by
  induction range n with
  | nil => rfl
  | cons x l ih =>
    rw [map_cons, sum_cons, ih]
    cases hx : p x with
    | false => rw [hzero x hx, filter_cons_of_neg (by simp [hx]), Int.zero_add]
    | true => rw [filter_cons_of_pos hx, map_cons, sum_cons]

end Rsx.Buckets
