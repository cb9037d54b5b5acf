import Mathlib

/-!
# Frames in a file that is cut

A file holds the frames of a list one after the other.  Cut anywhere, it holds a list of whole
frames and a tail in which there is none.  -/

namespace Rsx

open List

variable {F β : Type*} (enc : F → List β)

/-- The longest run of frames, from the first on, that is whole within `n` symbols. -/
def fits : List F → Nat → List F
  | [], _ => []
  | f :: fs, n => if (enc f).length ≤ n then f :: fits fs (n - (enc f).length) else []

def Torn (tail : List β) : Prop :=
  tail = [] ∨ ∃ f, tail <+: enc f ∧ tail.length < (enc f).length

variable {enc} {fs gs : List F} {n : Nat}

theorem take_flatMap (fs : List F) (n : Nat) :
    ∃ tail, (fs.flatMap enc).take n = (fits enc fs n).flatMap enc ++ tail ∧ Torn enc tail := by
  induction fs generalizing n with
  | nil => exact ⟨[], take_nil, .inl rfl⟩
  | cons f fs ih =>
    rw [flatMap_cons, fits]
    by_cases hwhole : (enc f).length ≤ n
    · obtain ⟨tail, heq, htorn⟩ := ih (n - (enc f).length)
      refine ⟨tail, ?_, htorn⟩
      rw [if_pos hwhole, take_append, take_of_length_le hwhole, heq, flatMap_cons, append_assoc]
    · have hlt : n < (enc f).length := Nat.lt_of_not_le hwhole
      refine ⟨(enc f).take n, ?_, .inr ⟨f, take_prefix _ _, ?_⟩⟩
      · rw [if_neg hwhole, take_append_of_le_length hlt.le]
        rfl
      · rwa [length_take, Nat.min_eq_left hlt.le]

theorem fits_isPrefix (fs : List F) (n : Nat) : fits enc fs n <+: fs := by
  induction fs generalizing n with
  | nil => exact prefix_rfl
  | cons f fs ih =>
    rw [fits]
    split_ifs
    · exact (prefix_cons_inj f).2 (ih _)
    · exact nil_prefix

theorem length_fits (fs : List F) (n : Nat) : ((fits enc fs n).flatMap enc).length ≤ n := by
  induction fs generalizing n with
  | nil => exact Nat.zero_le n
  | cons f fs ih =>
    rw [fits]
    split_ifs with hwhole
    · have := ih (n - (enc f).length)
      rw [flatMap_cons, length_append]
      omega
    · exact Nat.zero_le n

theorem fits_longest (hinitial : gs <+: fs) (hle : (gs.flatMap enc).length ≤ n) :
    gs <+: fits enc fs n := by
  induction fs generalizing gs n with
  | nil => exact hinitial
  | cons f fs ih =>
    cases gs with
    | nil => exact nil_prefix
    | cons g =>
      obtain ⟨rfl, hrest⟩ := cons_prefix_cons.1 hinitial
      rw [flatMap_cons, length_append] at hle
      rw [fits, if_pos (by omega)]
      exact (prefix_cons_inj g).2 (ih hrest (by omega))

theorem fits_append (fs gs : List F) (n : Nat) :
    fits enc (fs ++ gs) ((fs.flatMap enc).length + n) = fs ++ fits enc gs n := by
  induction fs with
  | nil => simp
  | cons f fs ih =>
    rw [flatMap_cons, length_append, cons_append, fits, if_pos (by omega),
      show (enc f).length + (fs.flatMap enc).length + n - (enc f).length =
        (fs.flatMap enc).length + n by omega, ih]
    rfl

theorem fits_of_le (h : (fs.flatMap enc).length ≤ n) : fits enc fs n = fs := by
  obtain ⟨k, rfl⟩ := Nat.exists_eq_add_of_le h
  have := @fits_append F β enc fs [] k
  rwa [fits, append_nil] at this

end Rsx
