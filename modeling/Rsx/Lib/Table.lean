import Mathlib

/-!
# Tables with a primary key

A table is a list of rows.  An insert with a conflict clause replaces the row of the same key when
the clause accepts it.  -/

namespace Rsx

open Function List

namespace Table

variable {ρ κ : Type} [DecidableEq κ] (key : ρ → κ)

def find (k : κ) (rows : List ρ) : Option ρ :=
  rows.find? fun row => key row = k

def upsert (accepts : ρ → ρ → Bool) (row : ρ) : List ρ → List ρ
  | [] => [row]
  | old :: rows =>
    if key old = key row then (if accepts old row then row else old) :: rows
    else old :: upsert accepts row rows

def upsertAll (accepts : ρ → ρ → Bool) (rows new : List ρ) : List ρ :=
  new.foldl (fun rows row => upsert key accepts row rows) rows

variable {key} {accepts : ρ → ρ → Bool} {rows new : List ρ} {row : ρ} {k : κ}

theorem find_nil (k : κ) : find key k ([] : List ρ) = none := rfl

theorem find_cons (row : ρ) (rows : List ρ) (k : κ) :
    find key k (row :: rows) = if key row = k then some row else find key k rows := by
  unfold find
  rw [List.find?_cons]
  by_cases h : key row = k
  · rw [if_pos h, decide_eq_true h]
  · rw [if_neg h, decide_eq_false h]

theorem find_upsert_of_ne (h : key row ≠ k) : find key k (upsert key accepts row rows) =
    find key k rows := by
  induction rows with
  | nil => rw [upsert, find_cons, if_neg h]
  | cons old rows ih =>
    unfold upsert
    split_ifs with hkey haccepts
    · rw [find_cons, find_cons, if_neg h, if_neg (hkey ▸ h)]
    · rfl
    · rw [find_cons, find_cons, ih]

theorem find_upsert_self (row : ρ) (rows : List ρ) :
    find key (key row) (upsert key accepts row rows) =
      match find key (key row) rows with
      | none => some row
      | some old => some (if accepts old row then row else old) := by
  induction rows with
  | nil => rw [upsert, find_cons, if_pos rfl, find_nil]
  | cons old rows ih =>
    unfold upsert
    by_cases hkey : key old = key row
    · rw [if_pos hkey, find_cons, find_cons, if_pos hkey, if_pos]
      cases accepts old row with
      | true => rfl
      | false => exact hkey
    · rw [if_neg hkey, find_cons, find_cons, if_neg hkey, if_neg hkey, ih]

theorem find_upsert_accepted (h : ∀ old ∈ find key (key row) rows, accepts old row) :
    find key (key row) (upsert key accepts row rows) = some row := by
  rw [find_upsert_self]
  split <;> rename_i hfind
  · rfl
  · rw [if_pos (h _ hfind)]

theorem upsertAll_append (rows new new' : List ρ) : upsertAll key accepts rows (new ++ new') =
      upsertAll key accepts (upsertAll key accepts rows new) new' :=
  foldl_append

/-- Read with a default for the keys that have no row, the table is the function. -/
def Reads (key : ρ → κ) (absent : κ → ρ) (rows : List ρ) (g : κ → ρ) : Prop :=
  ∀ k, (find key k rows).getD (absent k) = g k

theorem Reads.upsertAll {absent g g' : κ → ρ} {ks : List κ} (h : Reads key absent rows g)
    (hkey : ∀ k ∈ ks, key (g' k) = k)
    (haccepts : ∀ k ∈ ks, accepts (g k) (g' k) ∧ accepts (g' k) (g' k))
    (hsame : ∀ k, k ∉ ks → g' k = g k) :
    Reads key absent (upsertAll key accepts rows (ks.map g')) g' := by
  induction ks generalizing rows g with
  | nil =>
    intro k
    rw [hsame k not_mem_nil]
    exact h k
  | cons k ks ih =>
    have hfirst := hkey k mem_cons_self
    have hread : Reads key absent (upsert key accepts (g' k) rows) (update g k (g' k)) := by
      intro k'
      rcases eq_or_ne k' k with rfl | hne
      · have hfind : find key (key (g' k')) (upsert key accepts (g' k') rows) = some (g' k') := by
          apply find_upsert_accepted
          intro old hold
          rw [hfirst] at hold
          have hg : old = g k' := by
            rw [← h k', hold]
            rfl
          rw [hg]
          exact (haccepts k' mem_cons_self).1
        rw [hfirst] at hfind
        rw [hfind, update_self]
        rfl
      · rw [find_upsert_of_ne (by rw [hfirst]; exact hne.symm), update_of_ne hne]
        exact h k'
    refine ih hread (fun k' hmem => hkey k' (mem_cons_of_mem k hmem)) ?_ ?_
    · intro k' hmem
      have hlater := haccepts k' (mem_cons_of_mem k hmem)
      rcases eq_or_ne k' k with rfl | hne
      · rw [update_self]
        exact ⟨hlater.2, hlater.2⟩
      · rw [update_of_ne hne]
        exact hlater
    · intro k' hmem
      rcases eq_or_ne k' k with rfl | hne
      · rw [update_self]
      · rw [update_of_ne hne]
        exact hsame k' fun hmem' => (mem_cons.1 hmem').elim hne hmem

end Table

end Rsx
