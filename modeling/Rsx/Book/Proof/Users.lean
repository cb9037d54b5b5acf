import Rsx.Book.User

/-!
# The user registry

What the registry says of a user, its net position and its number of resting orders, does not depend
on the slot the user has.  Assigning and reclaiming slots leaves it unchanged.
-/

namespace Rsx.Book.UserRegistry

open Function List

variable {r : UserRegistry} {u v i : Nat}

/-- The state of a user; one that the registry does not know has no position and no orders. -/
def stateOf (r : UserRegistry) (u : Nat) : UserState :=
  match r.userMap u with
  | some idx => r.userStates idx
  | none => {}

def netOf (r : UserRegistry) (u : Nat) : Int :=
  (r.stateOf u).netQty

def ordersOf (r : UserRegistry) (u : Nat) : Nat :=
  (r.stateOf u).orderCount

theorem netOf_eq (r : UserRegistry) (u : Nat) : r.netOf u = (r.netQty u).getD 0 := by
  unfold netOf stateOf netQty
  cases r.userMap u <;> rfl

theorem ordersOf_eq (r : UserRegistry) (u : Nat) : r.ordersOf u = (r.orderCount u).getD 0 := by
  unfold ordersOf stateOf orderCount
  cases r.userMap u <;> rfl

/-- The map and the slots agree, and the free slots belong to nobody. -/
structure Consistent (r : UserRegistry) : Prop where
  owner : ∀ u i, r.userMap u = some i → i < r.userBump ∧ (r.userStates i).userId = u
  mapped : ∀ i < r.userBump, (r.userStates i).userId ≠ 0 →
    r.userMap (r.userStates i).userId = some i
  free : ∀ i ∈ r.userFreeList, i < r.userBump ∧ (r.userStates i).userId = 0 ∧
    ∀ u, r.userMap u ≠ some i
  nodup : r.userFreeList.Nodup

theorem consistent_empty : Consistent {} :=
  ⟨fun _ _ h => absurd h (by simp), fun _ h => absurd h (by simp), fun _ h => absurd h (by simp),
    nodup_nil⟩

section

variable (h : Consistent r)
include h

theorem Consistent.modify (hmap : r.userMap u = some i)
    {f : UserState → UserState} (hf : ∀ s, (f s).userId = s.userId) :
    Consistent (r.modify i f) ∧
      ∀ v, (r.modify i f).stateOf v = if v = u then f (r.stateOf u) else r.stateOf v := by
  have hid : ∀ j, ((r.modify i f).userStates j).userId = (r.userStates j).userId := by
    intro j
    show (update r.userStates i _ j).userId = _
    by_cases hj : j = i
    · rw [hj, update_self, hf]
    · rw [update_of_ne hj]
  refine ⟨⟨?_, ?_, ?_, h.nodup⟩, ?_⟩
  · intro v j hv
    rw [hid]
    exact h.owner v j hv
  · intro j hj hne
    rw [hid] at hne ⊢
    exact h.mapped j hj hne
  · intro j hj
    rw [hid]
    exact h.free j hj
  · intro v
    have hstate : ∀ v, (r.modify i f).stateOf v =
        match r.userMap v with
        | some j => update r.userStates i (f (r.userStates i)) j
        | none => {} := fun _ => rfl
    rw [hstate]
    by_cases hv : v = u
    · rw [hv, if_pos rfl, stateOf, hmap]
      exact update_self ..
    · rw [if_neg hv, stateOf]
      cases hmapv : r.userMap v with
      | none => rfl
      | some j =>
        -- Different users have different slots.
        have hne : j ≠ i := by
          rintro rfl
          exact hv ((h.owner v j hmapv).2.symm.trans (h.owner u j hmap).2)
        exact update_of_ne hne ..

theorem Consistent.assign (hmap : r.userMap u = none) {bump : Nat}
    {free : List Nat} (hle : r.userBump ≤ bump) (hi : i < bump)
    (hgap : ∀ j, r.userBump ≤ j → j < bump → j = i)
    (hfree : ∀ j ∈ free, j ∈ r.userFreeList ∧ j ≠ i) (hnodup : free.Nodup)
    (hnew : ∀ v, r.userMap v ≠ some i) :
    let r' := { r.modify i fun _ => { userId := u } with
      userFreeList := free
      userBump := bump
      userMap := update r.userMap u (some i) }
    Consistent r' ∧ r'.userMap u = some i ∧ ∀ v, (r'.stateOf v).netQty = (r.stateOf v).netQty ∧
        (r'.stateOf v).orderCount = (r.stateOf v).orderCount := by
  intro r'
  have hstates : ∀ j, r'.userStates j = if j = i then { userId := u } else r.userStates j := by
    intro j
    exact update_apply ..
  have hmaps : ∀ v, r'.userMap v = if v = u then some i else r.userMap v := by
    intro v
    exact update_apply ..
  refine ⟨⟨?_, ?_, ?_, hnodup⟩, ?_, ?_⟩
  · intro v j hv
    rw [hmaps] at hv
    rw [hstates]
    split_ifs at hv with hvu
    · cases hv
      exact ⟨hi, by rw [if_pos rfl, hvu]⟩
    · have hne : j ≠ i := fun heq => hnew v (heq ▸ hv)
      rw [if_neg hne]
      exact ⟨(h.owner v j hv).1.trans_le hle, (h.owner v j hv).2⟩
  · intro j hj hne
    rw [hstates] at hne ⊢
    rw [hmaps]
    by_cases hji : j = i
    · rw [if_pos hji, if_pos rfl, hji]
    · rw [if_neg hji] at hne ⊢
      have hjb : j < r.userBump := by
        by_contra hge
        exact hji (hgap j (not_lt.1 hge) hj)
      have hmapj := h.mapped j hjb hne
      have hvu : (r.userStates j).userId ≠ u := by
        intro heq
        rw [heq, hmap] at hmapj
        exact absurd hmapj (by simp)
      rw [if_neg hvu]
      exact hmapj
  · intro j hj
    obtain ⟨hmem, hji⟩ := hfree j hj
    obtain ⟨hjb, hzero, hnone⟩ := h.free j hmem
    rw [hstates, if_neg hji]
    refine ⟨hjb.trans_le hle, hzero, fun v => ?_⟩
    rw [hmaps]
    split_ifs
    · exact fun heq => hji (Option.some.inj heq).symm
    · exact hnone v
  · rw [hmaps, if_pos rfl]
  · intro v
    by_cases hv : v = u
    · subst hv
      have hnew : r'.stateOf v = { userId := v } := by
        rw [stateOf, hmaps, if_pos rfl]
        exact (hstates i).trans (if_pos rfl)
      have hold : r.stateOf v = {} := by rw [stateOf, hmap]
      rw [hnew, hold]
      exact ⟨rfl, rfl⟩
    · have hsame : r'.stateOf v = r.stateOf v := by
        rw [stateOf, stateOf, hmaps, if_neg hv]
        cases hmapv : r.userMap v with
        | none => rfl
        | some j => exact (hstates j).trans (if_neg fun heq : j = i => hnew v (heq ▸ hmapv))
      rw [hsame]
      exact ⟨rfl, rfl⟩

theorem Consistent.getOrAssign (u : Nat) :
    Consistent (r.getOrAssign u).2 ∧ (r.getOrAssign u).2.userMap u = some (r.getOrAssign u).1 ∧
      ∀ v, ((r.getOrAssign u).2.stateOf v).netQty = (r.stateOf v).netQty ∧
        ((r.getOrAssign u).2.stateOf v).orderCount = (r.stateOf v).orderCount := by
  unfold UserRegistry.getOrAssign
  cases hmap : r.userMap u with
  | some =>
    obtain ⟨hc, hstate⟩ := h.modify hmap (f := fun s => { s with zeroSinceNs := 0 })
      fun _ => rfl
    refine ⟨hc, hmap, fun v => ?_⟩
    rw [hstate]
    split_ifs with hv
    · rw [hv]
      exact ⟨rfl, rfl⟩
    · exact ⟨rfl, rfl⟩
  | none =>
    cases hlist : r.userFreeList with
    | cons i =>
      have hfree := h.free i (by rw [hlist]; exact mem_cons_self)
      have hnodup := h.nodup
      rw [hlist, nodup_cons] at hnodup
      refine h.assign hmap le_rfl hfree.1 (fun j hj hj' => absurd hj' (not_lt.2 hj))
        (fun j hj => ?_) hnodup.2 hfree.2.2
      rw [hlist]
      exact ⟨mem_cons_of_mem i hj, fun heq => hnodup.1 (heq ▸ hj)⟩
    | nil =>
      refine h.assign hmap (Nat.le_succ _) (Nat.lt_succ_self _) (fun j hj hj' => by omega)
        (fun j hj => ?_) h.nodup fun v hv => absurd (h.owner v _ hv).1 (lt_irrefl _)
      have hmem : j ∈ r.userFreeList := hj
      rw [hlist] at hmem
      exact absurd hmem not_mem_nil

theorem Consistent.addOrder (u : Nat) : Consistent (r.addOrder u) ∧
      ∀ v, (r.addOrder u).netOf v = r.netOf v ∧
        (r.addOrder u).ordersOf v = r.ordersOf v + if v = u then 1 else 0 := by
  obtain ⟨hc, hmap, hsame⟩ := h.getOrAssign u
  obtain ⟨hc', hstate⟩ := hc.modify hmap
    (f := fun s => { s with orderCount := s.orderCount + 1 }) fun _ => rfl
  refine ⟨hc', fun v => ?_⟩
  have hv : (r.addOrder u).stateOf v = _ := hstate v
  unfold netOf ordersOf
  rw [hv]
  split_ifs with hvu
  · rw [hvu]
    exact ⟨(hsame u).1, congrArg (· + 1) (hsame u).2⟩
  · exact hsame v

theorem Consistent.removeOrder (u : Nat) : Consistent (r.removeOrder u) ∧
      ∀ v, (r.removeOrder u).netOf v = r.netOf v ∧
        (r.removeOrder u).ordersOf v = r.ordersOf v - if v = u then 1 else 0 := by
  unfold UserRegistry.removeOrder
  cases hmap : r.userMap u with
  | none =>
    refine ⟨h, fun v => ⟨rfl, ?_⟩⟩
    split_ifs with hvu
    · have hstate : r.stateOf v = {} := by rw [hvu, stateOf, hmap]
      rw [ordersOf, hstate]
      rfl
    · rfl
  | some =>
    obtain ⟨hc, hstate⟩ := h.modify hmap
      (f := fun s => { s with orderCount := s.orderCount - 1 }) fun _ => rfl
    refine ⟨hc, fun v => ?_⟩
    unfold netOf ordersOf
    rw [hstate]
    split_ifs with hvu
    · rw [hvu]
      exact ⟨rfl, rfl⟩
    · exact ⟨rfl, rfl⟩

theorem Consistent.addNet (u : Nat) (delta : Int) : Consistent (r.addNet u delta) ∧
      ∀ v, (r.addNet u delta).netOf v = (if v = u then sat64 (r.netOf u + delta) else r.netOf v) ∧
        (r.addNet u delta).ordersOf v = r.ordersOf v := by
  obtain ⟨hc, hmap, hsame⟩ := h.getOrAssign u
  obtain ⟨hc', hstate⟩ := hc.modify hmap
    (f := fun s => { s with netQty := sat64 (s.netQty + delta) }) fun _ => rfl
  refine ⟨hc', fun v => ?_⟩
  have hv : (r.addNet u delta).stateOf v = _ := hstate v
  unfold netOf ordersOf
  rw [hv]
  split_ifs with hvu
  · rw [hvu]
    exact ⟨congrArg (fun n => sat64 (n + delta)) (hsame u).1, (hsame u).2⟩
  · exact hsame v

theorem Consistent.applyFill (taker maker : Nat) (side : Side) (qty : Int) :
    Consistent (r.applyFill taker maker side qty) ∧
      ∀ v, (r.applyFill taker maker side qty).ordersOf v = r.ordersOf v := by
  obtain ⟨hc, hstate⟩ := h.addNet taker (signedQty side qty)
  obtain ⟨hc', hstate'⟩ := hc.addNet maker (-signedQty side qty)
  exact ⟨hc', fun v => (hstate' v).2.trans (hstate v).2⟩

theorem Consistent.netOf_applyFill (taker maker : Nat) (side : Side) (qty : Int) (v : Nat) :
    (r.applyFill taker maker side qty).netOf v =
      if v = maker then
        sat64 ((if maker = taker then sat64 (r.netOf taker + signedQty side qty)
          else r.netOf maker) - signedQty side qty)
      else if v = taker then sat64 (r.netOf taker + signedQty side qty)
      else r.netOf v := by
  obtain ⟨hc, hstate⟩ := h.addNet taker (signedQty side qty)
  obtain ⟨-, hstate'⟩ := hc.addNet maker (-signedQty side qty)
  rw [UserRegistry.applyFill, (hstate' v).1, (hstate maker).1, (hstate v).1, Int.sub_eq_add_neg]

end

def Ranged (r : UserRegistry) : Prop :=
  ∀ u, i64Min ≤ r.netOf u ∧ r.netOf u ≤ i64Max

theorem ranged_empty : Ranged {} :=
  fun _ => show i64Min ≤ 0 ∧ 0 ≤ i64Max by decide

theorem Ranged.congr {r' : UserRegistry} (h : r.Ranged) (hnet : ∀ u, r'.netOf u = r.netOf u) :
    r'.Ranged :=
  fun u => hnet u ▸ h u

theorem Ranged.applyFill (h : r.Ranged) (hc : Consistent r) (taker maker : Nat) (side : Side)
    (qty : Int) : (r.applyFill taker maker side qty).Ranged := by
  intro v
  rw [hc.netOf_applyFill]
  split_ifs
  · exact sat64_mem _
  · exact sat64_mem _
  · exact sat64_mem _
  · exact h v

theorem Consistent.mark (h : Consistent r) (hi : i < r.userBump)
    (hne : (r.userStates i).userId ≠ 0) (ns : Nat) :
    Consistent (r.modify i fun s => { s with zeroSinceNs := ns }) ∧
      ∀ v, (r.modify i fun s => { s with zeroSinceNs := ns }).netOf v = r.netOf v ∧
        (r.modify i fun s => { s with zeroSinceNs := ns }).ordersOf v = r.ordersOf v := by
  obtain ⟨hc, hstate⟩ := h.modify (h.mapped i hi hne)
    (f := fun s => { s with zeroSinceNs := ns }) fun _ => rfl
  refine ⟨hc, fun v => ?_⟩
  unfold netOf ordersOf
  rw [hstate]
  split_ifs with hv
  · rw [hv]
    exact ⟨rfl, rfl⟩
  · exact ⟨rfl, rfl⟩

theorem Consistent.reclaim (h : Consistent r) (hi : i < r.userBump)
    (hne : (r.userStates i).userId ≠ 0) (hidle : (r.userStates i).isIdle = true) :
    let r' := { r.modify i fun _ => {} with
      userMap := update r.userMap (r.userStates i).userId none
      userFreeList := i :: r.userFreeList }
    Consistent r' ∧ ∀ v, r'.netOf v = r.netOf v ∧ r'.ordersOf v = r.ordersOf v := by
  intro r'
  set u := (r.userStates i).userId with hu
  have hmap : r.userMap u = some i := h.mapped i hi hne
  have hstates : ∀ j, r'.userStates j = if j = i then {} else r.userStates j := fun _ =>
    update_apply ..
  have hmaps : ∀ v, r'.userMap v = if v = u then none else r.userMap v := fun _ =>
    update_apply ..
  have hslot : ∀ v j, v ≠ u → r.userMap v = some j → j ≠ i := by
    rintro v j hv hmapv rfl
    exact hv ((h.owner v j hmapv).2.symm.trans hu.symm)
  refine ⟨⟨?_, ?_, ?_, ?_⟩, ?_⟩
  · intro v j hv
    rw [hmaps] at hv
    split_ifs at hv with hvu
    rw [hstates, if_neg (hslot v j hvu hv)]
    exact h.owner v j hv
  · intro j hj hzero
    rw [hstates] at hzero ⊢
    split_ifs at hzero ⊢ with hji
    · exact absurd rfl hzero
    · have hmapj := h.mapped j hj hzero
      have hvu : (r.userStates j).userId ≠ u := by
        intro heq
        rw [heq, hmap] at hmapj
        exact hji (Option.some.inj hmapj).symm
      rw [hmaps, if_neg hvu]
      exact hmapj
  · intro j hj
    rw [hstates]
    rcases mem_cons.1 hj with rfl | hj
    · rw [if_pos rfl]
      refine ⟨hi, rfl, fun v => ?_⟩
      rw [hmaps]
      split_ifs with hvu
      · simp
      · exact fun hv => hslot v j hvu hv rfl
    · obtain ⟨hlt, hzero, hnone⟩ := h.free j hj
      have hji : j ≠ i := by
        rintro rfl
        exact hne hzero
      rw [if_neg hji]
      refine ⟨hlt, hzero, fun v => ?_⟩
      rw [hmaps]
      split_ifs
      · simp
      · exact hnone v
  · exact nodup_cons.2 ⟨fun hmem => hne (h.free i hmem).2.1, h.nodup⟩
  · intro v
    unfold netOf ordersOf
    by_cases hv : v = u
    · have hnew : r'.stateOf v = {} := by rw [stateOf, hmaps, if_pos hv]
      have hold : r.stateOf v = r.userStates i := by rw [hv, stateOf, hmap]
      have hboth : (r.userStates i).netQty = 0 ∧ (r.userStates i).orderCount = 0 :=
        of_decide_eq_true hidle
      rw [hnew, hold, hboth.1, hboth.2]
      exact ⟨rfl, rfl⟩
    · have hsame : r'.stateOf v = r.stateOf v := by
        rw [stateOf, stateOf, hmaps, if_neg hv]
        cases hmapv : r.userMap v with
        | none => rfl
        | some j => exact (hstates j).trans (if_neg (hslot v j hv hmapv))
      rw [hsame]
      exact ⟨rfl, rfl⟩

theorem Consistent.maintainOne (h : Consistent r) (nowNs : Nat) (replayMode : Bool) :
    Consistent (r.maintainOne nowNs replayMode).2 ∧
      ∀ v, (r.maintainOne nowNs replayMode).2.netOf v = r.netOf v ∧
        (r.maintainOne nowNs replayMode).2.ordersOf v = r.ordersOf v := by
  unfold UserRegistry.maintainOne
  by_cases hskip : replayMode = true ∨ r.userBump = 0
  · rw [if_pos hskip]
    exact ⟨h, fun _ => ⟨rfl, rfl⟩⟩
  rw [if_neg hskip]
  set i := r.maintenanceCursor % r.userBump
  set r₁ : UserRegistry :=
    { r with maintenanceCursor := (r.maintenanceCursor + 1) % r.userBump }
  -- Moving the cursor changes nothing that matters.
  have h₁ : Consistent r₁ := ⟨h.owner, h.mapped, h.free, h.nodup⟩
  have hstay : ∀ v, r₁.netOf v = r.netOf v ∧ r₁.ordersOf v = r.ordersOf v :=
    fun _ => ⟨rfl, rfl⟩
  have hlt : i < r₁.userBump := Nat.mod_lt _ (Nat.pos_of_ne_zero fun h0 => hskip (.inr h0))
  by_cases hzero : (r₁.userStates i).userId = 0
  · rw [if_pos hzero]
    exact ⟨h₁, hstay⟩
  rw [if_neg hzero]
  by_cases hidle : (r₁.userStates i).isIdle = true
  · rw [if_neg (not_not.2 hidle)]
    by_cases hmark : (r₁.userStates i).zeroSinceNs = 0
    · rw [if_pos hmark]
      exact h₁.mark hlt hzero nowNs
    · rw [if_neg hmark]
      by_cases hgrace : nowNs - (r₁.userStates i).zeroSinceNs < reclaimGraceNs
      · rw [if_pos hgrace]
        exact ⟨h₁, hstay⟩
      · rw [if_neg hgrace]
        exact h₁.reclaim hlt hzero hidle
  · rw [if_pos hidle]
    exact h₁.mark hlt hzero 0

/-! ## No slot is lost -/

/-- Every slot that was handed out has a user or is free. -/
def Covered (r : UserRegistry) : Prop :=
  ∀ i < r.userBump, i ∈ r.userFreeList ∨ ∃ u, r.userMap u = some i

theorem covered_empty : Covered {} :=
  fun _ hi => absurd hi (Nat.not_lt_zero _)

variable (h : r.Covered)
include h

theorem Covered.getOrAssign (u : Nat) : (r.getOrAssign u).2.Covered := by
  unfold UserRegistry.getOrAssign
  cases hmap : r.userMap u with
  | some => exact h
  | none =>
    have hkeep : ∀ i idx, (∃ v, r.userMap v = some i) →
        ∃ v, update r.userMap u (some idx) v = some i := by
      rintro i idx ⟨v, hv⟩
      have hne : v ≠ u := fun heq => by simp [← heq, hv] at hmap
      exact ⟨v, by rwa [update_of_ne hne]⟩
    have hself : ∀ idx, ∃ v, update r.userMap u (some idx) v = some idx := fun idx =>
      ⟨u, update_self ..⟩
    cases hfree : r.userFreeList with
    | cons idx =>
      intro i hi
      rcases h i hi with hmem | hmapped
      · rw [hfree] at hmem
        rcases mem_cons.1 hmem with rfl | hmem
        · exact .inr (hself i)
        · exact .inl hmem
      · exact .inr (hkeep i idx hmapped)
    | nil =>
      intro i hi
      rcases Nat.lt_succ_iff_lt_or_eq.1 hi with hlt | rfl
      · rcases h i hlt with hmem | hmapped
        · simp [hfree] at hmem
        · exact .inr (hkeep i r.userBump hmapped)
      · exact .inr (hself r.userBump)

theorem Covered.addOrder (u : Nat) : (r.addOrder u).Covered :=
  h.getOrAssign u

theorem Covered.removeOrder (u : Nat) : (r.removeOrder u).Covered := by
  unfold UserRegistry.removeOrder
  cases r.userMap u <;> exact h

theorem Covered.applyFill (taker maker : Nat) (side : Side) (qty : Int) :
    (r.applyFill taker maker side qty).Covered := by
  have htaker : (r.addNet taker (signedQty side qty)).Covered := h.getOrAssign taker
  exact htaker.getOrAssign maker

theorem Covered.maintainOne (hc : Consistent r) (nowNs : Nat) (replayMode : Bool) :
    (r.maintainOne nowNs replayMode).2.Covered := by
  unfold UserRegistry.maintainOne
  by_cases hskip : replayMode = true ∨ r.userBump = 0
  · rw [if_pos hskip]
    exact h
  rw [if_neg hskip]
  have hlt : r.maintenanceCursor % r.userBump < r.userBump :=
    Nat.mod_lt _ (Nat.pos_of_ne_zero fun h0 => hskip (.inr h0))
  by_cases hzero : (r.userStates (r.maintenanceCursor % r.userBump)).userId = 0
  · rw [if_pos hzero]
    exact h
  rw [if_neg hzero]
  by_cases hidle : (r.userStates (r.maintenanceCursor % r.userBump)).isIdle = true
  swap
  · rw [if_pos hidle]
    exact h
  rw [if_neg (not_not.2 hidle)]
  split_ifs
  · exact h
  · exact h
  · -- The slot of the user that is forgotten becomes free.
    intro i hi
    rcases h i hi with hmem | ⟨v, hv⟩
    · exact .inl (mem_cons_of_mem _ hmem)
    · by_cases heq : v = (r.userStates (r.maintenanceCursor % r.userBump)).userId
      · have hmapped := hc.mapped _ hlt hzero
        rw [← heq, hv] at hmapped
        exact .inl (Option.some.inj hmapped ▸ mem_cons_self)
      · exact .inr ⟨v, (update_of_ne heq ..).trans hv⟩

end Rsx.Book.UserRegistry
