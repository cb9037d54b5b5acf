import Mathlib

/-!
# Doubly linked lists

Lists threaded through two link functions `next` and `prev` over an arbitrary type of nodes, with a
value `nil` that ends a list.  `Path` describes the forward links of a list of nodes, `Back` its
backward links; both say nothing about nodes outside the list, so lists that share no node can be
changed independently.
-/

namespace Rsx.LinkedList

open Function List

variable {α : Type*} {next next' prev prev' : α → α} {l l₁ l₂ : List α} {a e p nil : α}

/-- Every node of the list points forward to the following one, the last to `e`. -/
def Path (next : α → α) : List α → α → Prop
  | [], _ => True
  | a :: l, e => next a = l.headD e ∧ Path next l e

/-- Every node of the list points back to the one before, the first to `p`. -/
def Back (prev : α → α) : α → List α → Prop
  | _, [] => True
  | p, a :: l => prev a = p ∧ Back prev a l

theorem headD_append (l₁ l₂ : List α) (e : α) : (l₁ ++ l₂).headD e = l₁.headD (l₂.headD e) := by
  cases l₁ <;> rfl

theorem getLastD_append (l₁ l₂ : List α) (p : α) :
    (l₁ ++ l₂).getLastD p = l₂.getLastD (l₁.getLastD p) := by
  induction l₁ generalizing p with
  | nil => rfl
  | cons a l ih => simpa only [cons_append, getLastD_cons] using ih a

theorem path_append : Path next (l₁ ++ l₂) e ↔ Path next l₁ (l₂.headD e) ∧ Path next l₂ e := by
  induction l₁ with
  | nil => simp [Path]
  | cons a l ih => simp only [cons_append, Path, ih, headD_append, and_assoc]

theorem back_append : Back prev p (l₁ ++ l₂) ↔ Back prev p l₁ ∧ Back prev (l₁.getLastD p) l₂ := by
  induction l₁ generalizing p with
  | nil => simp [Back]
  | cons a l ih => simp only [cons_append, Back, ih, getLastD_cons, and_assoc]

theorem Path.congr (h : Path next l e) (hnext : ∀ a ∈ l, next' a = next a) : Path next' l e := by
  induction l with
  | nil => trivial
  | cons a l ih =>
    rw [forall_mem_cons] at hnext
    exact ⟨hnext.1.trans h.1, ih h.2 hnext.2⟩

theorem Back.congr (h : Back prev p l) (hprev : ∀ a ∈ l, prev' a = prev a) : Back prev' p l := by
  induction l generalizing p with
  | nil => trivial
  | cons a l ih =>
    rw [forall_mem_cons] at hprev
    exact ⟨hprev.1.trans h.1, ih h.2 hprev.2⟩

theorem next_eq_headD (h : Path next (l₁ ++ a :: l₂) e) : next a = l₂.headD e :=
  (path_append.1 h).2.1

theorem prev_eq_getLastD (h : Back prev p (l₁ ++ a :: l₂)) : prev a = l₁.getLastD p :=
  (back_append.1 h).2.1

section Update

variable [DecidableEq α] {z : α}

theorem Path.update_of_notMem (h : Path next l e) (ha : a ∉ l) (x : α) :
    Path (update next a x) l e :=
  h.congr fun _ hb => update_of_ne (ne_of_mem_of_not_mem hb ha) _ _

theorem Back.update_of_notMem (h : Back prev p l) (ha : a ∉ l) (x : α) :
    Back (update prev a x) p l :=
  h.congr fun _ hb => update_of_ne (ne_of_mem_of_not_mem hb ha) _ _

theorem Path.redirect_last (h : Path next (l ++ [z]) e) (hz : z ∉ l) (x : α) :
    Path (update next z x) (l ++ [z]) x := by
  rw [path_append] at h ⊢
  exact ⟨h.1.update_of_notMem hz x, update_self .., trivial⟩

theorem Back.redirect_first (h : Back prev p (a :: l)) (ha : a ∉ l) (x : α) :
    Back (update prev a x) x (a :: l) :=
  ⟨update_self .., h.2.update_of_notMem ha x⟩

theorem Path.push (h : Path next (l ++ [z]) nil) (hz : z ∉ l) (ha : a ∉ l ++ [z]) :
    Path (update (update next z a) a nil) (l ++ [z] ++ [a]) nil := by
  refine path_append.2 ⟨?_, update_self .., trivial⟩
  exact (h.redirect_last hz a).update_of_notMem ha nil

theorem Back.push (h : Back prev p (l ++ [z])) (ha : a ∉ l ++ [z]) :
    Back (update prev a z) p (l ++ [z] ++ [a]) := by
  refine back_append.2 ⟨h.update_of_notMem ha z, ?_, trivial⟩
  simp

def unlinkNext (next prev : α → α) (nil a : α) : α → α :=
  if prev a ≠ nil then update next (prev a) (next a) else next

def unlinkPrev (next prev : α → α) (nil a : α) : α → α :=
  if next a ≠ nil then update prev (next a) (prev a) else prev

section Unlink

variable (hpath : Path next (l₁ ++ a :: l₂) nil) (hback : Back prev nil (l₁ ++ a :: l₂))
  (hnodup : (l₁ ++ a :: l₂).Nodup) (hnil : nil ∉ l₁ ++ a :: l₂)

include hpath hback hnil

theorem headD_unlink :
    (l₁ ++ l₂).headD nil = if prev a ≠ nil then (l₁ ++ a :: l₂).headD nil else next a := by
  have hprev := prev_eq_getLastD hback
  have hnext := next_eq_headD hpath
  rcases eq_nil_or_concat' l₁ with rfl | ⟨l, z, rfl⟩
  · simp [hprev, hnext]
  · have hz : z ≠ nil := by
      rintro rfl
      simp at hnil
    rw [getLastD_concat] at hprev
    rw [if_pos (hprev ▸ hz)]
    cases l <;> simp

theorem getLastD_unlink :
    (l₁ ++ l₂).getLastD nil = if next a ≠ nil then (l₁ ++ a :: l₂).getLastD nil else prev a := by
  have hprev := prev_eq_getLastD hback
  have hnext := next_eq_headD hpath
  cases l₂ with
  | nil => simp [hnext, hprev]
  | cons y =>
    have hy : y ≠ nil := by
      rintro rfl
      simp at hnil
    rw [if_pos (hnext ▸ hy)]
    simp only [getLastD_append, getLastD_cons]

include hnodup

theorem path_unlink : Path (unlinkNext next prev nil a) (l₁ ++ l₂) nil := by
  obtain ⟨hfst, hnext, hsnd⟩ := path_append.1 hpath
  have hprev := prev_eq_getLastD hback
  unfold unlinkNext
  rcases eq_nil_or_concat' l₁ with rfl | ⟨l, z, rfl⟩
  · simpa [hprev] using hsnd
  · simp only [getLastD_concat] at hprev
    have hz : z ≠ nil := by
      rintro rfl
      simp at hnil
    have hzl : z ∉ l ∧ z ∉ l₂ := by
      grind
    rw [if_pos (hprev ▸ hz), hprev, hnext]
    exact path_append.2 ⟨hfst.redirect_last hzl.1 _, hsnd.update_of_notMem hzl.2 _⟩

theorem back_unlink : Back (unlinkPrev next prev nil a) nil (l₁ ++ l₂) := by
  obtain ⟨hfst, hprev, hsnd⟩ := back_append.1 hback
  have hnext := next_eq_headD hpath
  unfold unlinkPrev
  cases l₂ with
  | nil => simpa [hnext] using hfst
  | cons y l =>
    have hy : y ≠ nil := by
      rintro rfl
      simp at hnil
    have hyl : y ∉ l₁ ∧ y ∉ l := by
      grind
    rw [if_pos (hnext ▸ hy), hnext, hprev]
    exact back_append.2 ⟨hfst.update_of_notMem hyl.1 _, hsnd.redirect_first hyl.2 _⟩

end Unlink

def follow (next : α → α) (nil : α) : Nat → α → List α
  | 0, _ => []
  | fuel + 1, cursor => if cursor = nil then [] else cursor :: follow next nil fuel (next cursor)

theorem follow_eq (h : Path next l nil) (hnil : nil ∉ l) {fuel : Nat} (hfuel : l.length ≤ fuel) :
    follow next nil fuel (l.headD nil) = l := by
  induction l generalizing fuel with
  | nil => cases fuel <;> simp [follow]
  | cons a l ih =>
    obtain ⟨fuel, rfl⟩ : ∃ n, fuel = n + 1 := ⟨fuel - 1, by simp at hfuel; omega⟩
    simp only [mem_cons, not_or] at hnil
    rw [headD_cons, follow, if_neg (Ne.symm hnil.1), h.1, ih h.2 hnil.2 (by simpa using hfuel)]

end Update

end Rsx.LinkedList
