import Mathlib

/-!
# Lists that merge several streams

A log in which records of several streams are interleaved.  Two logs with the same streams differ
only in how the streams are interleaved.  -/

namespace Rsx

open List

variable {α κ : Type} [DecidableEq κ]

def streamOf (stream : α → κ) (k : κ) (log : List α) : List α :=
  log.filter fun a => stream a = k

variable {stream : α → κ} {k : κ} {log log' : List α}

theorem streamOf_append (stream : α → κ) (k : κ) (log log' : List α) :
    streamOf stream k (log ++ log') = streamOf stream k log ++ streamOf stream k log' :=
  filter_append _ _

theorem mem_streamOf {a : α} : a ∈ streamOf stream k log ↔ a ∈ log ∧ stream a = k := by
  rw [streamOf, mem_filter, decide_eq_true_iff]

theorem filter_le_append_filter_lt (pos : α → Nat) (tip : Nat)
    (h : log.Pairwise fun a b => pos a < pos b) :
    (log.filter fun a => pos a ≤ tip) ++ (log.filter fun a => tip < pos a) = log := by
  induction log with
  | nil => rfl
  | cons a log ih =>
    obtain ⟨hhead, htail⟩ := pairwise_cons.1 h
    rw [filter_cons, filter_cons]
    by_cases hpos : pos a ≤ tip
    · rw [if_pos (decide_eq_true hpos), if_neg (by simpa using hpos), cons_append, ih htail]
    · have hnone : (log.filter fun b => pos b ≤ tip) = [] := by
        rw [filter_eq_nil_iff]
        intro b hb
        have hlt := hhead b hb
        rw [decide_eq_true_iff]
        omega
      have hall : (log.filter fun b => tip < pos b) = log := by
        rw [filter_eq_self]
        intro b hb
        have hlt := hhead b hb
        rw [decide_eq_true_iff]
        omega
      rw [if_neg (by simpa using hpos), if_pos (decide_eq_true (Nat.lt_of_not_le hpos)),
        hnone, hall]
      rfl

end Rsx
