import Mathlib

/-!
# Runs of a partial step function

A system is given by what one action does to a state, `none` when the action aborts.  A condition on
the actions may depend on the state an action is taken in.
-/

namespace Rsx

open Option

variable {S A : Type*}

def run (step : S → A → Option S) : S → List A → Option S
  | s, [] => some s
  | s, a :: actions => (step s a).bind fun s' => run step s' actions

/-- Every action of the run meets `ok` in the state it is taken in. -/
def Along (step : S → A → Option S) (ok : S → A → Prop) : S → List A → Prop
  | _, [] => True
  | s, a :: actions => ok s a ∧ ∀ s' ∈ step s a, Along step ok s' actions

instance decidableAlong (step : S → A → Option S) (ok : S → A → Prop)
    [∀ s a, Decidable (ok s a)] (s : S) (actions : List A) :
    Decidable (Along step ok s actions) :=
  match actions with
  | [] => .isTrue trivial
  | a :: actions =>
    have : ∀ s', Decidable (Along step ok s' actions) :=
      fun s' => decidableAlong step ok s' actions
    inferInstanceAs (Decidable (ok s a ∧ ∀ s' ∈ step s a, Along step ok s' actions))

variable {step : S → A → Option S} {ok : S → A → Prop}
  {ok' : S → A → Prop} {s s' : S} {actions actions' : List A} {I : S → Prop}

theorem Along.and (h : Along step ok s actions)
    (h' : Along step ok' s actions) : Along step (fun s a => ok s a ∧ ok' s a) s actions := by
  induction actions generalizing s with
  | nil => exact trivial
  | cons a actions ih => exact ⟨⟨h.1, h'.1⟩, fun s₁ hs₁ => ih (h.2 s₁ hs₁) (h'.2 s₁ hs₁)⟩

/-- **The invariant rule.**  What every action that meets the condition preserves holds after every
run whose actions all meet it. -/
theorem run_invariant
    (hstep : ∀ {s a s'}, I s → ok s a → step s a = some s' → I s') (hs : I s)
    (hok : Along step ok s actions) (hrun : run step s actions = some s') : I s' := by
  induction actions generalizing s with
  | nil => exact some.inj hrun ▸ hs
  | cons a actions ih =>
    obtain ⟨s₁, hs₁, hrest⟩ := bind_eq_some_iff.1 hrun
    exact ih (hstep hs hok.1 hs₁) (hok.2 s₁ hs₁) hrest

theorem run_preserves (hstep : ∀ {s a s'}, I s → step s a = some s' → I s') (hs : I s)
    (hrun : run step s actions = some s') : I s' := by
  induction actions generalizing s with
  | nil => exact some.inj hrun ▸ hs
  | cons a actions ih =>
    obtain ⟨_, hs₁, hrest⟩ := bind_eq_some_iff.1 hrun
    exact ih (hstep hs hs₁) hrest

theorem Along.of_invariant (hstep : ∀ {s a s'}, I s → ok s a → step s a = some s' → I s')
    (hok' : ∀ {s a}, I s → ok s a → ok' s a) (hs : I s)
    (hok : Along step ok s actions) : Along step ok' s actions := by
  induction actions generalizing s with
  | nil => exact trivial
  | cons a actions ih =>
    refine ⟨hok' hs hok.1, fun s₁ hs₁ => ?_⟩
    exact ih (hstep hs hok.1 hs₁) (hok.2 s₁ hs₁)

theorem Along.append (h : Along step ok s actions)
    (h' : ∀ s' ∈ run step s actions, Along step ok s' actions') :
    Along step ok s (actions ++ actions') := by
  induction actions generalizing s with
  | nil => exact h' s rfl
  | cons a actions ih =>
    refine ⟨h.1, fun s₁ hs₁ => ih (h.2 s₁ hs₁) fun s' hs' => h' s' ?_⟩
    exact bind_eq_some_iff.2 ⟨s₁, hs₁, hs'⟩

theorem Along.of_append (h : Along step ok s (actions ++ actions')) :
    Along step ok s actions ∧ ∀ s' ∈ run step s actions, Along step ok s' actions' := by
  induction actions generalizing s with
  | nil => exact ⟨trivial, fun s' hs' => some.inj hs' ▸ h⟩
  | cons a actions ih =>
    refine ⟨⟨h.1, fun s₁ hs₁ => (ih (h.2 s₁ hs₁)).1⟩, fun s' hs' => ?_⟩
    obtain ⟨s₁, hs₁, hrest⟩ := bind_eq_some_iff.1 hs'
    exact (ih (h.2 s₁ hs₁)).2 s' hrest

theorem run_append (s : S) (actions actions' : List A) : run step s (actions ++ actions') =
      (run step s actions).bind fun s' => run step s' actions' := by
  induction actions generalizing s with
  | nil => rfl
  | cons a actions ih =>
    simp only [List.cons_append, run, bind_assoc, ih]

theorem run_append_some {s'' : S} (h : run step s actions = some s')
    (h' : run step s' actions' = some s'') : run step s (actions ++ actions') = some s'' := by
  rw [run_append, h]
  exact h'

theorem run_total (f : S → A → S) (s : S) (actions : List A) :
    run (fun s a => some (f s a)) s actions = some (actions.foldl f s) := by
  induction actions generalizing s with
  | nil => rfl
  | cons a actions ih => exact ih (f s a)

theorem foldl_reaches {R : S → S → Prop} {Q : A → S → Prop} {f : S → A → S} (hrefl : ∀ s, R s s)
    (htrans : ∀ {s s₁ s'}, R s s₁ → R s₁ s' → R s s') (hstep : ∀ s a, R s (f s a) ∧ Q a (f s a))
    (hkeep : ∀ {a s s'}, R s s' → Q a s → Q a s') (actions : List A) (s : S) :
    R s (actions.foldl f s) ∧ ∀ a ∈ actions, Q a (actions.foldl f s) := by
  induction actions generalizing s with
  | nil => exact ⟨hrefl s, fun _ hmem => absurd hmem List.not_mem_nil⟩
  | cons a actions ih =>
    obtain ⟨hfirst, hdone⟩ := hstep s a
    obtain ⟨hrest, hall⟩ := ih (f s a)
    refine ⟨htrans hfirst hrest, fun b hmem => ?_⟩
    rcases List.mem_cons.1 hmem with rfl | hmem
    · exact hkeep hrest hdone
    · exact hall b hmem

/-! ## Fallible results in runs on fixed inputs -/

section Outcomes

variable {ε β : Type*} {p : β → Prop} [DecidablePred p]

instance decidableExistsSome : (o : Option β) → Decidable (∃ b, o = some b ∧ p b)
  | some b => decidable_of_iff (p b) (by simp)
  | none => .isFalse (by simp)

instance decidableExistsOk : (x : Except ε β) → Decidable (∃ b, x = .ok b ∧ p b)
  | .ok b => decidable_of_iff (p b) (by simp)
  | .error _ => .isFalse (by simp)

instance decidableExistsSomeOk : (o : Option (Except ε β)) → Decidable (∃ b, o = some (.ok b) ∧ p b)
  | some x => decidable_of_iff (∃ b, x = .ok b ∧ p b) (by simp)
  | none => .isFalse (by simp)

end Outcomes

theorem exists_run {P Q : S → Prop} (h : ∃ s', run step s actions = some s' ∧ P s')
    (hQ : ∀ s', run step s actions = some s' → P s' → Q s') :
    ∃ s', run step s actions = some s' ∧ Q s' :=
  h.imp fun s' ⟨hrun, hP⟩ => ⟨hrun, hQ s' hrun hP⟩

end Rsx
