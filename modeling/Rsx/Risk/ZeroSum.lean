import Rsx.Risk.Continuity

/-!
# Positions sum to zero

A fill gives one side what it takes from the other.  In a shard that owns all users the net
quantities of every symbol sum to zero, and the exposure index lists exactly the open positions.
-/

namespace Rsx.Risk

open Function Book List

/-! ## Legs -/

namespace Position

variable {p : Position}

theorem net_applyLegs {legs : List Leg} {seq : Nat} (hfit : p.LegsFit seq legs) :
    (p.applyLegs seq legs).longQty - (p.applyLegs seq legs).shortQty =
      p.longQty - p.shortQty + (legs.map Leg.signed).sum := by
  induction legs generalizing p with
  | nil => exact (add_zero _).symm
  | cons leg legs ih =>
    obtain ⟨-, hnet⟩ := gain_applyFill hfit.1 seq 0
    have hrest := ih hfit.2
    rw [hnet, p.booked_net] at hrest
    rw [map_cons, sum_cons, ← add_assoc]
    exact hrest

theorem isEmpty_iff : p.isEmpty = true ↔ p.longQty = 0 ∧ p.shortQty = 0 :=
  decide_eq_true_iff

end Position

theorem signed_opposite (side : Side) (price qty : Int) :
    (⟨side.opposite, price, qty⟩ : Leg).signed = -(⟨side, price, qty⟩ : Leg).signed := by
  cases side with
  | buy => rfl
  | sell => exact (neg_neg qty).symm

theorem sum_signed_legsOf {users : Finset Nat} {fill : FillEvent}
    (htaker : fill.takerUserId ∈ users) (hmaker : fill.makerUserId ∈ users) (symbolId : Nat) :
    ∑ userId ∈ users, ((legsOf userId symbolId fill).map Leg.signed).sum = 0 := by
  by_cases hsymbol : fill.symbolId = symbolId
  · have hsplit : ∀ userId, ((legsOf userId symbolId fill).map Leg.signed).sum =
        (if fill.takerUserId = userId then (⟨fill.takerSide, fill.price, fill.qty⟩ : Leg).signed
          else 0) +
        if fill.makerUserId = userId then -(⟨fill.takerSide, fill.price, fill.qty⟩ : Leg).signed
          else 0 := by
      intro userId
      rw [legsOf, if_pos hsymbol, map_append, sum_append, ← signed_opposite]
      congr 1 <;> split <;> simp
    simp only [hsplit, Finset.sum_add_distrib, Finset.sum_ite_eq, if_pos htaker, if_pos hmaker]
    exact add_neg_cancel _
  · refine Finset.sum_eq_zero fun userId _ => ?_
    rw [legsOf, if_neg hsymbol]
    rfl

namespace Shard

variable {s : Shard} {fill : FillEvent}
  {users : List Nat} {userId symbolId : Nat}

/-! ## The exposure index -/

/-- The index lists the open positions of a symbol, each user once. -/
def Indexed (s : Shard) : Prop :=
  ∀ symbolId, (s.exposure symbolId).Nodup ∧
    ∀ userId, userId ∈ s.exposure symbolId ↔ ¬ (s.position userId symbolId).isEmpty

theorem mem_addExposed {other : Nat} :
    other ∈ addExposed users userId ↔ other ∈ users ∨ other = userId := by
  unfold addExposed
  split_ifs with hmem
  · constructor
    · exact .inl
    · rintro (h | rfl)
      · exact h
      · exact hmem
  · rw [mem_append, mem_singleton]

theorem nodup_addExposed (h : users.Nodup) (userId : Nat) : (addExposed users userId).Nodup := by
  unfold addExposed
  split_ifs with hmem
  · exact h
  · exact List.Nodup.append h (nodup_singleton _) (by simpa using hmem)

section

variable (h : s.Indexed)
include h

theorem Indexed.bookLeg (user : Nat) (side : Side) (fee : Int) :
    (s.bookLeg user fill side fee).Indexed := by
  intro symbolId
  obtain ⟨hnodup, hmem⟩ := h symbolId
  by_cases hsymbol : symbolId = fill.symbolId
  · subst hsymbol
    have hindex : (s.bookLeg user fill side fee).exposure fill.symbolId =
        if ((s.position user fill.symbolId).applyFill side fill.price fill.qty
          fill.seq).isEmpty then
          (s.exposure fill.symbolId).filter (· ≠ user)
        else addExposed (s.exposure fill.symbolId) user :=
      update_self ..
    rw [hindex]
    constructor
    · split
      · exact hnodup.filter _
      · exact nodup_addExposed hnodup user
    · intro userId
      rw [position_bookLeg]
      by_cases huser : user = userId
      · subst huser
        split
        · rename_i hempty
          simp [hempty]
        · rename_i hempty
          simp [hempty, mem_addExposed]
      · have hother : ¬ (user = userId ∧ fill.symbolId = fill.symbolId) := fun h => huser h.1
        have hne : userId ≠ user := fun h => huser h.symm
        rw [show (if user = userId ∧ fill.symbolId = fill.symbolId then
            (s.position userId fill.symbolId).applyFill side fill.price fill.qty fill.seq
          else s.position userId fill.symbolId) = s.position userId fill.symbolId
            from if_neg hother,
          ← hmem userId]
        split
        · simp [hne]
        · simp [mem_addExposed, hne]
  · have hindex : (s.bookLeg user fill side fee).exposure symbolId = s.exposure symbolId :=
      update_of_ne hsymbol ..
    rw [hindex]
    refine ⟨hnodup, fun userId => ?_⟩
    rw [position_bookLeg, if_neg fun h => hsymbol h.2.symm]
    exact hmem userId

theorem Indexed.applyLeg (user : Nat) (side : Side) (fee : Int) :
    (s.applyLeg user fill side fee).Indexed := by
  rw [applyLeg_eq]
  split
  · exact h.bookLeg user side fee
  · exact h

theorem Indexed.processFill : (s.processFill fill).Indexed := by
  by_cases hfresh : s.Fresh fill
  · obtain ⟨_, _, _, _, hfill⟩ := processFill_of_fresh hfresh
    rw [hfill]
    exact (h.applyLeg _ _ _).applyLeg _ _ _
  · rw [processFill_of_not_fresh hfresh]
    exact h

theorem Indexed.net_eq_zero (hmem : userId ∉ s.exposure symbolId) : s.net userId symbolId = 0 := by
  have hempty := not_not.1 (mt ((h symbolId).2 userId).2 hmem)
  obtain ⟨hlong, hshort⟩ := Position.isEmpty_iff.1 hempty
  rw [net, hlong, hshort, sub_self]

theorem Indexed.sum_net {users : Finset Nat} (hcover : (s.exposure symbolId).toFinset ⊆ users) :
    ∑ userId ∈ (s.exposure symbolId).toFinset, s.net userId symbolId =
      ∑ userId ∈ users, s.net userId symbolId :=
  Finset.sum_subset hcover fun _ _ hnot =>
    h.net_eq_zero fun hmem => hnot (mem_toFinset.2 hmem)

end

/-! ## Balance -/

/-- A shard that owns all users, with sound positions that sum to zero. -/
structure Balanced (s : Shard) : Prop where
  owns : ∀ userId, s.userInShard userId
  sound : s.Sound
  indexed : s.Indexed
  zeroSum : ∀ symbolId, ∑ userId ∈ (s.exposure symbolId).toFinset, s.net userId symbolId = 0

theorem Indexed.of_no_positions
    (hpositions : ∀ userId symbolId, s.positions userId symbolId = none)
    (hexposure : ∀ symbolId, s.exposure symbolId = []) : s.Indexed := by
  intro symbolId
  rw [hexposure]
  refine ⟨nodup_nil, fun userId => ?_⟩
  rw [position, hpositions, Option.getD_none]
  exact iff_of_false not_mem_nil fun h => h rfl

theorem Balanced.of_no_positions (howns : ∀ userId, s.userInShard userId)
    (hpositions : ∀ userId symbolId, s.positions userId symbolId = none)
    (hexposure : ∀ symbolId, s.exposure symbolId = []) : s.Balanced where
  owns := howns
  sound := .of_positions_none hpositions
  indexed := .of_no_positions hpositions hexposure
  zeroSum := by
    intro symbolId
    rw [hexposure]
    rfl

theorem net_processFill (howns : s.userInShard userId) (hfresh : s.Fresh fill)
    (hfits : s.PartiesFit fill) (symbolId : Nat) : (s.processFill fill).net userId symbolId =
      s.net userId symbolId + ((legsOf userId symbolId fill).map Leg.signed).sum := by
  rw [net, position_processFill howns hfresh]
  exact Position.net_applyLegs (hfits.fillFits userId symbolId hfresh)

theorem Balanced.processFill (h : s.Balanced) (hqty : 0 < fill.qty) (hprice : 0 ≤ fill.price)
    (hfits : s.PartiesFit fill) : (s.processFill fill).Balanced := by
  have hindexed : (s.processFill fill).Indexed := h.indexed.processFill
  refine ⟨fun userId => ?_, h.sound.processFill hqty hprice hfits, hindexed, fun symbolId => ?_⟩
  · rw [userInShard_processFill]
    exact h.owns userId
  · by_cases hfresh : s.Fresh fill
    · -- both totals over the users of either index and the parties
      let users :=
        (s.exposure symbolId).toFinset ∪ ((s.processFill fill).exposure symbolId).toFinset ∪
        {fill.takerUserId, fill.makerUserId}
      have hbefore : (s.exposure symbolId).toFinset ⊆ users :=
        Finset.subset_union_left.trans Finset.subset_union_left
      have hafter : ((s.processFill fill).exposure symbolId).toFinset ⊆ users :=
        Finset.subset_union_right.trans Finset.subset_union_left
      have htaker : fill.takerUserId ∈ users :=
        Finset.mem_union_right _ (Finset.mem_insert_self ..)
      have hmaker : fill.makerUserId ∈ users :=
        Finset.mem_union_right _ (Finset.mem_insert_of_mem (Finset.mem_singleton_self _))
      calc ∑ userId ∈ ((s.processFill fill).exposure symbolId).toFinset,
              (s.processFill fill).net userId symbolId
          = ∑ userId ∈ users, (s.processFill fill).net userId symbolId := hindexed.sum_net hafter
        _ = ∑ userId ∈ users, s.net userId symbolId +
              ∑ userId ∈ users, ((legsOf userId symbolId fill).map Leg.signed).sum := by
            rw [← Finset.sum_add_distrib]
            exact Finset.sum_congr rfl fun userId _ =>
              net_processFill (h.owns userId) hfresh hfits symbolId
        _ = 0 := by
            rw [sum_signed_legsOf htaker hmaker, ← h.indexed.sum_net hbefore, h.zeroSum, add_zero]
    · rw [processFill_of_not_fresh hfresh]
      exact h.zeroSum symbolId

theorem Balanced.congr {s' : Shard} (h : s.Balanced) (hid : s'.shardId = s.shardId)
    (hcount : s'.shardCount = s.shardCount) (hpositions : s'.positions = s.positions)
    (hexposure : s'.exposure = s.exposure) : s'.Balanced := by
  have hposition : ∀ userId symbolId, s'.position userId symbolId = s.position userId symbolId := by
    intro userId symbolId
    rw [position, hpositions]
    rfl
  refine ⟨fun userId => ?_, ⟨fun u sym => ?_, fun u sym => ?_, fun u sym => ?_⟩, fun sym => ?_,
    fun sym => ?_⟩
  · rw [userInShard, hid, hcount]
    exact h.owns userId
  · exact hposition u sym ▸ h.sound.sound u sym
  · exact hposition u sym ▸ h.sound.fits u sym
  · rw [hposition]
    exact h.sound.symbol u sym
  · rw [hexposure]
    refine ⟨(h.indexed sym).1, fun userId => ?_⟩
    rw [hposition]
    exact (h.indexed sym).2 userId
  · have hnet : ∀ userId, s'.net userId sym = s.net userId sym := by
      intro userId
      rw [net, hposition]
      rfl
    rw [hexposure]
    simp only [hnet]
    exact h.zeroSum sym

end Shard

end Rsx.Risk
