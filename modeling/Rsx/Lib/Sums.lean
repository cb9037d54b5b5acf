import Rsx.Lib.Machine

/-!
# Sums of machine integers

Totals over a table that is scanned by its keys, and saturating sums that are exact because no
partial sum leaves the range.
-/

namespace Rsx

open List

def SumFits : Int → List Int → Prop
  | start, [] => FitsI64 start
  | start, x :: xs => FitsI64 start ∧ SumFits (start + x) xs

instance decidableSumFits : ∀ start xs, Decidable (SumFits start xs)
  | start, [] => inferInstanceAs (Decidable (FitsI64 start))
  | start, x :: xs =>
    have := decidableSumFits (start + x) xs
    inferInstanceAs (Decidable (_ ∧ _))

theorem SumFits.start {a : Int} {xs : List Int} (h : SumFits a xs) : FitsI64 a := by
  cases xs with
  | nil => exact h
  | cons => exact h.1

/-! ## Tables -/

theorem sum_map_filterMap {α β : Type*} (l : List α) (f : α → Option β) (default : α → β)
    (v : β → Int) (hdefault : ∀ a, v (default a) = 0) :
    ((l.filterMap f).map v).sum = (l.map fun a => v ((f a).getD (default a))).sum := by
  induction l with
  | nil => rfl
  | cons a l ih =>
    cases ha : f a with
    | none => rw [filterMap_cons_none ha, map_cons, sum_cons, ha,
        Option.getD_none, hdefault, zero_add, ih]
    | some => rw [filterMap_cons_some ha, map_cons, map_cons, sum_cons,
        sum_cons, ha, Option.getD_some, ih]

theorem sum_sub_of_change {ι : Type*} {keys : Finset ι} {g g' : ι → Int} {k : ι} (hk : k ∈ keys)
    (hsame : ∀ i ∈ keys, i ≠ k → g' i = g i) :
    ∑ i ∈ keys, g' i - ∑ i ∈ keys, g i = g' k - g k := by
  rw [← Finset.sum_sub_distrib]
  refine Finset.sum_eq_single_of_mem k hk fun i hi hne => ?_
  rw [hsame i hi hne, sub_self]

end Rsx
