import Rsx.Book.Occupancy

/-!
# Correctness of the occupancy bitmap

`set` and `clear` change one bit of the slot level and keep every summary level exact, and the two
searches return the nearest set bit in their direction.
-/

namespace Rsx.Book.Occupancy

open List Option

/-- Each level summarizes the one before, and the top level is one word. -/
def Summarized : List (List Word) → Prop
  | [] => False
  | [level] => level.length = 1
  | level :: upper :: rest =>
    level.length ≤ 64 * upper.length ∧
      (∀ w, bit upper w = decide (wordAt level w ≠ 0)) ∧ Summarized (upper :: rest)

/-- A well-formed bitmap: exact summaries, room for `n` bits, and no bit past them. -/
structure Wf (o : Occupancy) : Prop where
  summarized : Summarized o.levels
  covers : o.n ≤ 64 * (o.levels.headD []).length
  bounded : ∀ i, o.test i → i < o.n

section Level

variable {level upper : List Word} {i j w : Nat}

theorem wordAt_set (v : Word) (hword : i < level.length) :
    wordAt (level.set i v) w = if w = i then v else wordAt level w := by
  unfold wordAt
  by_cases hw : i = w
  · subst hw
    simp [hword]
  · simp [hw, Ne.symm hw]

theorem wordAt_eq_zero (h : level.length ≤ w) : wordAt level w = 0 := by
  unfold wordAt
  rw [getD_eq_getElem?_getD, getElem?_eq_none h]
  rfl

theorem bit_set (hword : i / 64 < level.length) (v : Word) : bit (level.set (i / 64) v) j =
    if j / 64 = i / 64 then v.getLsbD (j % 64) else bit level j := by
  unfold bit
  rw [wordAt_set _ hword]
  split <;> rfl

theorem getLsbD_twoPow_mod (hw : j / 64 = i / 64) :
    (BitVec.twoPow 64 (i % 64)).getLsbD (j % 64) = decide (j = i) := by
  have hbit : (i % 64 = j % 64) ↔ j = i := by omega
  have hlt : i % 64 < 64 := by omega
  simp only [BitVec.getLsbD_twoPow, hbit, hlt, decide_true, Bool.true_and]

theorem bit_set_or (hword : i / 64 < level.length) :
    bit (level.set (i / 64) (wordAt level (i / 64) ||| BitVec.twoPow 64 (i % 64))) j =
      (bit level j || decide (j = i)) := by
  rw [bit_set hword]
  split_ifs with hw
  · rw [BitVec.getLsbD_or, getLsbD_twoPow_mod hw, bit, hw]
  · rw [decide_eq_false fun heq : j = i => hw (by rw [heq]), Bool.or_false]

theorem bit_set_and (hword : i / 64 < level.length) :
    bit (level.set (i / 64) (wordAt level (i / 64) &&& ~~~ BitVec.twoPow 64 (i % 64))) j =
      (bit level j && decide (j ≠ i)) := by
  rw [bit_set hword]
  split_ifs with hw
  · have hlt : j % 64 < 64 := by omega
    simp only [BitVec.getLsbD_and, BitVec.getLsbD_not, getLsbD_twoPow_mod hw, hlt, decide_true,
      Bool.true_and, decide_not, bit, hw]
  · have hne : j ≠ i := fun heq => hw (by rw [heq])
    rw [decide_eq_true hne, Bool.and_true]

theorem bit_eq_false (h : wordAt level (j / 64) = 0) : bit level j = false := by
  rw [bit, h]
  exact BitVec.getLsbD_zero

theorem bit_eq_false_of_summary (hsum : ∀ w, bit upper w = decide (wordAt level w ≠ 0))
    (h : bit upper (j / 64) = false) : bit level j = false := by
  rw [hsum] at h
  exact bit_eq_false (not_not.1 (of_decide_eq_false h))

theorem bit_word_mul_add {k : Nat} (hk : k < 64) :
    bit level (w * 64 + k) = (wordAt level w).getLsbD k := by
  have hdiv : (w * 64 + k) / 64 = w := by omega
  have hmod : (w * 64 + k) % 64 = k := by omega
  rw [bit, hdiv, hmod]

end Level

section Levels

variable {level : List Word} {levels : List (List Word)} {i j : Nat}

theorem Summarized.ne_nil (h : Summarized levels) : levels ≠ [] := by
  rintro rfl
  exact h

theorem summarized_cons (hne : levels ≠ []) :
    Summarized (level :: levels) ↔ level.length ≤ 64 * (levels.headD []).length ∧
      (∀ w, bit (levels.headD []) w = decide (wordAt level w ≠ 0)) ∧ Summarized levels := by
  cases levels with
  | nil => exact absurd rfl hne
  | cons => rfl

theorem or_twoPow_ne_zero (x : Word) : x ||| BitVec.twoPow 64 (i % 64) ≠ 0 := by
  intro hzero
  have hlt : i % 64 < 64 := by omega
  have hbit := congrArg (·.getLsbD (i % 64)) hzero
  simp [hlt] at hbit

theorem Summarized.put {rest rest' : List (List Word)} {v : Word} (h : Summarized (level :: rest))
    (hne : rest ≠ []) (hi : i / 64 < level.length) (hs : Summarized rest')
    (hl : (rest'.headD []).length = (rest.headD []).length)
    (hb : ∀ w, bit (rest'.headD []) w =
      if w = i / 64 then decide (v ≠ 0) else bit (rest.headD []) w) :
    Summarized (level.set (i / 64) v :: rest') := by
  obtain ⟨hlen, hsum, -⟩ := (summarized_cons hne).1 h
  refine (summarized_cons hs.ne_nil).2 ⟨?_, fun w => ?_, hs⟩
  · rw [length_set, hl]
    exact hlen
  · rw [hb, hsum, wordAt_set _ hi]
    split <;> rfl

theorem setLevels_spec (h : Summarized levels) (hi : i / 64 < (levels.headD []).length) :
    Summarized (setLevels levels i) ∧
      ((setLevels levels i).headD []).length = (levels.headD []).length ∧
      ∀ j, bit ((setLevels levels i).headD []) j = (bit (levels.headD []) j || decide (j = i)) := by
  induction levels generalizing i with
  | nil => exact h.elim
  | cons level rest ih =>
    rw [headD_cons] at hi ⊢
    unfold setLevels
    by_cases hne : rest = []
    · subst hne
      have hlen : level.length = 1 := h
      simp only [setLevels, ite_self, headD_cons, length_set, true_and]
      exact ⟨by simpa [Summarized] using hlen, fun j => bit_set_or hi⟩
    obtain ⟨hlen, hsum, hrest⟩ := (summarized_cons hne).1 h
    have hword := or_twoPow_ne_zero (i := i) (wordAt level (i / 64))
    by_cases hold : wordAt level (i / 64) = 0
    · obtain ⟨hs, hl, hb⟩ := ih hrest (i := i / 64) (by omega)
      rw [if_neg (not_not.2 hold)]
      simp only [headD_cons, length_set, true_and]
      refine ⟨h.put hne hi hs hl fun w => ?_, fun j => bit_set_or hi⟩
      rw [hb, decide_eq_true hword]
      split <;> simp [*]
    · simp only [ne_eq, hold, not_false_iff, if_true, headD_cons, length_set, true_and]
      refine ⟨h.put hne hi hrest rfl fun w => ?_, fun j => bit_set_or hi⟩
      split <;> rename_i hw
      · rw [hw, hsum, decide_eq_true hold, decide_eq_true hword]
      · rfl

theorem clearLevels_spec (h : Summarized levels) (hi : i / 64 < (levels.headD []).length) :
    Summarized (clearLevels levels i) ∧
      ((clearLevels levels i).headD []).length = (levels.headD []).length ∧
      ∀ j, bit ((clearLevels levels i).headD []) j =
        (bit (levels.headD []) j && decide (j ≠ i)) := by
  induction levels generalizing i with
  | nil => exact h.elim
  | cons level rest ih =>
    rw [headD_cons] at hi ⊢
    unfold clearLevels
    by_cases hne : rest = []
    · subst hne
      have hlen : level.length = 1 := h
      simp only [clearLevels, ite_self, headD_cons, length_set, true_and]
      exact ⟨by simpa [Summarized] using hlen, fun j => bit_set_and hi⟩
    obtain ⟨hlen, hsum, hrest⟩ := (summarized_cons hne).1 h
    by_cases hleft : wordAt level (i / 64) &&& ~~~ BitVec.twoPow 64 (i % 64) = 0
    · obtain ⟨hs, hl, hb⟩ := ih hrest (i := i / 64) (by omega)
      rw [if_neg (not_not.2 hleft)]
      simp only [headD_cons, length_set, true_and]
      refine ⟨h.put hne hi hs hl fun w => ?_, fun j => bit_set_and hi⟩
      rw [hb, hleft]
      split <;> simp [*]
    · simp only [ne_eq, hleft, not_false_iff, if_true, headD_cons, length_set, true_and]
      refine ⟨h.put hne hi hrest rfl fun w => ?_, fun j => bit_set_and hi⟩
      -- The word keeps a bit, so it was not zero before either.
      have hold : wordAt level (i / 64) ≠ 0 := by
        intro hzero
        exact hleft (by rw [hzero]; exact BitVec.zero_and)
      split <;> rename_i hw
      · rw [hw, hsum, decide_eq_true hold, decide_eq_true hleft]
      · rfl

end Levels

/-- The least number from `lo` on with `p`, absent exactly if there is none. -/
def FirstFrom (p : Nat → Bool) (lo : Nat) : Option Nat → Prop
  | none => ∀ j, lo ≤ j → p j = false
  | some i => lo ≤ i ∧ p i = true ∧ ∀ j, lo ≤ j → j < i → p j = false

/-- The greatest number up to `hi` with `p`, absent exactly if there is none. -/
def LastUpto (p : Nat → Bool) (hi : Nat) : Option Nat → Prop
  | none => ∀ j, j ≤ hi → p j = false
  | some i => i ≤ hi ∧ p i = true ∧ ∀ j, i < j → j ≤ hi → p j = false

section Search

variable {level : List Word} {levels : List (List Word)} {w off k idx : Nat}

theorem ctz_spec {x : Word} (hx : x ≠ 0) : x.ctz.toNat < 64 ∧ x.getLsbD x.ctz.toNat = true ∧
      ∀ k, k < x.ctz.toNat → x.getLsbD k = false := by
  have hbit := BitVec.getLsbD_true_ctz_of_ne_zero hx
  exact ⟨BitVec.lt_of_getLsbD hbit, hbit, fun k hk => BitVec.getLsbD_false_of_lt_ctz hk⟩

theorem clz_spec {x : Word} (hx : x ≠ 0) : x.getLsbD (63 - x.clz.toNat) = true ∧
      ∀ k, 63 - x.clz.toNat < k → x.getLsbD k = false := by
  refine ⟨BitVec.getLsbD_true_clz_of_ne_zero (by omega) hx, fun k hk => ?_⟩
  refine Nat.testBit_lt_two_pow (BitVec.toNat_lt_two_pow_sub_clz.trans_le ?_)
  exact Nat.pow_le_pow_right (by omega) (by omega)

theorem getLsbD_and_shiftLeft (x : Word) (off : Nat) (hk : k < 64) :
    (x &&& (BitVec.allOnes 64 <<< off)).getLsbD k = (x.getLsbD k && decide (off ≤ k)) := by
  rw [BitVec.getLsbD_and, BitVec.getLsbD_shiftLeft, BitVec.getLsbD_allOnes]
  by_cases hoff : k < off
  · simp [hoff]
  · have hle : off ≤ k := by omega
    simp [hoff, hk, hle]
    omega

theorem getLsbD_and_maskUpto (x : Word) (hoff : off < 64) :
    (x &&& maskUpto off).getLsbD k = (x.getLsbD k && decide (k ≤ off)) := by
  by_cases hk : k < 64
  · have hmask : (maskUpto off).getLsbD k = decide (k ≤ off) := by
      unfold maskUpto
      by_cases h63 : off = 63
      · simp only [h63, if_true, BitVec.getLsbD_allOnes]
        exact decide_eq_decide.2 (by omega)
      · have hpow : 2 ^ (off + 1) < 2 ^ 64 := Nat.pow_lt_pow_right (by omega) (by omega)
        have heq : BitVec.twoPow 64 (off + 1) - 1 = BitVec.ofNat 64 (2 ^ (off + 1) - 1) := by
          have hpos : 0 < 2 ^ (off + 1) := Nat.two_pow_pos _
          apply BitVec.eq_of_toNat_eq
          rw [BitVec.toNat_sub, BitVec.toNat_twoPow, BitVec.toNat_ofNat,
            Nat.mod_eq_of_lt hpow]
          change (2 ^ 64 - 1 + 2 ^ (off + 1)) % 2 ^ 64 = _
          omega
        rw [if_neg h63, heq, BitVec.getLsbD_ofNat, Nat.testBit_two_pow_sub_one]
        simp only [hk, decide_true, Bool.true_and]
        exact decide_eq_decide.2 (by omega)
    rw [BitVec.getLsbD_and, hmask]
  · have hfalse : x.getLsbD k = false := BitVec.getLsbD_of_ge _ _ (by omega)
    rw [BitVec.getLsbD_and, hfalse, Bool.false_and, Bool.false_and]

theorem bit_of_ge {j : Nat} (hj : idx ≤ j) (hword : j / 64 = idx / 64) : bit level j =
    (wordAt level (idx / 64) &&& (BitVec.allOnes 64 <<< (idx % 64))).getLsbD (j % 64) := by
  rw [getLsbD_and_shiftLeft _ _ (by omega), decide_eq_true (by omega), Bool.and_true, bit, hword]

theorem findNextLevels_spec (h : Summarized levels) :
    FirstFrom (bit (levels.headD [])) idx (findNextLevels levels idx) := by
  induction levels generalizing idx with
  | nil => exact h.elim
  | cons level rest ih =>
    rw [headD_cons]
    unfold findNextLevels
    by_cases hlen : level.length ≤ idx / 64
    · rw [if_pos hlen]
      exact fun j hj => bit_eq_false (wordAt_eq_zero (by omega))
    rw [if_neg hlen]
    by_cases hmask : wordAt level (idx / 64) &&& (BitVec.allOnes 64 <<< (idx % 64)) = 0
    · rw [if_neg (not_not.2 hmask)]
      have hsame : ∀ j, idx ≤ j → j / 64 = idx / 64 → bit level j = false := fun j hj hword => by
        rw [bit_of_ge hj hword, hmask]
        exact BitVec.getLsbD_zero
      by_cases hne : rest = []
      · subst hne
        have hone : level.length = 1 := h
        intro j hj
        by_cases hword : j / 64 = idx / 64
        · exact hsame j hj hword
        · exact bit_eq_false (wordAt_eq_zero (by omega))
      obtain ⟨-, hsum, hrest⟩ := (summarized_cons hne).1 h
      have hup : FirstFrom _ (idx / 64 + 1) _ := ih hrest
      cases hfind : findNextLevels rest (idx / 64 + 1) with
      | none =>
        rw [hfind] at hup
        intro j hj
        by_cases hword : j / 64 = idx / 64
        · exact hsame j hj hword
        · exact bit_eq_false_of_summary hsum (hup (j / 64) (by omega))
      | some w =>
        rw [hfind] at hup
        obtain ⟨_, hset, hbefore⟩ := hup
        rw [hsum, decide_eq_true_eq] at hset
        obtain ⟨hlt, hbit, hlow⟩ := ctz_spec hset
        rw [map_some]
        refine ⟨by omega, (bit_word_mul_add hlt).trans hbit, fun j hj hj' => ?_⟩
        by_cases hword : j / 64 = idx / 64
        · exact hsame j hj hword
        by_cases hw : j / 64 = w
        · rw [bit, hw]
          exact hlow _ (by omega)
        · exact bit_eq_false_of_summary hsum (hbefore (j / 64) (by omega) (by omega))
    · rw [if_pos hmask]
      obtain ⟨hlt, hbit, hlow⟩ := ctz_spec hmask
      rw [getLsbD_and_shiftLeft _ _ hlt, Bool.and_eq_true, decide_eq_true_eq] at hbit
      refine ⟨by omega, (bit_word_mul_add hlt).trans hbit.1, fun j hj hj' => ?_⟩
      rw [bit_of_ge hj (by omega)]
      exact hlow _ (by omega)

theorem bit_of_le {j : Nat} (hj : j ≤ idx) (hword : j / 64 = idx / 64) :
    bit level j = (wordAt level (idx / 64) &&& maskUpto (idx % 64)).getLsbD (j % 64) := by
  rw [getLsbD_and_maskUpto _ (by omega), decide_eq_true (by omega), Bool.and_true, bit, hword]

theorem findPrevLevels_spec (h : Summarized levels) (hidx : idx / 64 < (levels.headD []).length) :
    LastUpto (bit (levels.headD [])) idx (findPrevLevels levels idx) := by
  induction levels generalizing idx with
  | nil => exact h.elim
  | cons level rest ih =>
    rw [headD_cons] at hidx ⊢
    unfold findPrevLevels
    by_cases hmask : wordAt level (idx / 64) &&& maskUpto (idx % 64) = 0
    · rw [if_neg (not_not.2 hmask)]
      have hsame : ∀ j, j ≤ idx → j / 64 = idx / 64 → bit level j = false := fun j hj hword => by
        rw [bit_of_le hj hword, hmask]
        exact BitVec.getLsbD_zero
      by_cases hfirst : idx / 64 = 0
      · rw [if_pos hfirst]
        intro j hj
        exact hsame j hj (by omega)
      rw [if_neg hfirst]
      -- A level of one word has no word before `idx`, so there is a summary above.
      have hne : rest ≠ [] := by
        rintro rfl
        have hone : level.length = 1 := h
        omega
      obtain ⟨_, hsum, hrest⟩ := (summarized_cons hne).1 h
      have hup : LastUpto _ (idx / 64 - 1) _ := ih hrest (by omega)
      cases hfind : findPrevLevels rest (idx / 64 - 1) with
      | none =>
        rw [hfind] at hup
        intro j hj
        by_cases hword : j / 64 = idx / 64
        · exact hsame j hj hword
        · exact bit_eq_false_of_summary hsum (hup (j / 64) (by omega))
      | some w =>
        rw [hfind] at hup
        obtain ⟨_, hset, hafter⟩ := hup
        rw [hsum, decide_eq_true_eq] at hset
        obtain ⟨hbit, hhigh⟩ := clz_spec hset
        rw [map_some]
        refine ⟨by omega, (bit_word_mul_add (by omega)).trans hbit, fun j hj hj' => ?_⟩
        by_cases hword : j / 64 = idx / 64
        · exact hsame j hj' hword
        by_cases hw : j / 64 = w
        · rw [bit, hw]
          exact hhigh _ (by omega)
        · exact bit_eq_false_of_summary hsum (hafter (j / 64) (by omega) (by omega))
    · rw [if_pos hmask]
      obtain ⟨hbit, hhigh⟩ := clz_spec hmask
      rw [getLsbD_and_maskUpto _ (by omega), Bool.and_eq_true, decide_eq_true_eq] at hbit
      refine ⟨by omega, (bit_word_mul_add (by omega)).trans hbit.1, fun j hj hj' => ?_⟩
      rw [bit_of_le hj' (by omega)]
      exact hhigh _ (by omega)

end Search

section Bitmap

variable {o : Occupancy} {i lo hi : Nat}

theorem Wf.word_lt (h : o.Wf) (hi : i < o.n) : i / 64 < (o.levels.headD []).length := by
  have := h.covers
  omega

theorem wordAt_replicate (words w : Nat) : wordAt (replicate words 0) w = 0 := by
  unfold wordAt
  rw [getD_eq_getElem?_getD, getElem?_replicate]
  split <;> rfl

theorem bit_replicate (words j : Nat) : bit (replicate words 0) j = false :=
  bit_eq_false (wordAt_replicate ..)

theorem newLevels_spec {fuel count : Nat} (hfuel : count < fuel) :
    Summarized (newLevels fuel count) ∧
      (newLevels fuel count).headD [] = replicate (max ((count + 63) / 64) 1) 0 := by
  induction fuel generalizing count with
  | zero => omega
  | succ fuel ih =>
    unfold newLevels
    by_cases hone : max ((count + 63) / 64) 1 = 1
    · simp [hone, Summarized]
    · have hlt : max ((count + 63) / 64) 1 < fuel := by omega
      obtain ⟨hs, hhead⟩ := ih hlt
      rw [if_neg hone]
      refine ⟨(summarized_cons hs.ne_nil).2 ⟨?_, fun w => ?_, hs⟩, rfl⟩
      · rw [hhead, length_replicate, length_replicate]
        omega
      · rw [hhead, bit_replicate, wordAt_replicate]
        rfl

theorem test_new (n j : Nat) : (new n).test j = false := by
  unfold test new
  rw [(newLevels_spec (Nat.lt_succ_self n)).2, bit_replicate]

theorem wf_new (n : Nat) : (new n).Wf := by
  obtain ⟨hs, hhead⟩ := newLevels_spec (Nat.lt_succ_self n)
  refine ⟨hs, ?_, fun i hi => ?_⟩
  · change n ≤ 64 * ((newLevels (n + 1) n).headD []).length
    rw [hhead, length_replicate]
    omega
  · rw [test_new] at hi
    exact absurd hi (by decide)

@[simp] theorem n_new (n : Nat) : (new n).n = n :=
  rfl

variable (h : o.Wf)
include h

theorem Wf.test_set (hi : i < o.n) (j : Nat) : (o.set i).test j = (o.test j || decide (j = i)) :=
  (setLevels_spec h.summarized (h.word_lt hi)).2.2 j

theorem Wf.test_clear (hi : i < o.n) (j : Nat) :
    (o.clear i).test j = (o.test j && decide (j ≠ i)) :=
  (clearLevels_spec h.summarized (h.word_lt hi)).2.2 j

theorem Wf.set (hi : i < o.n) : (o.set i).Wf := by
  obtain ⟨hs, hl, -⟩ := setLevels_spec h.summarized (h.word_lt hi)
  refine ⟨hs, ?_, fun j hj => ?_⟩
  · change o.n ≤ 64 * ((setLevels o.levels i).headD []).length
    rw [hl]
    exact h.covers
  · rw [h.test_set hi, Bool.or_eq_true, decide_eq_true_eq] at hj
    exact hj.elim (h.bounded j) (fun hji => hji ▸ hi)

theorem Wf.clear (hi : i < o.n) : (o.clear i).Wf := by
  obtain ⟨hs, hl, -⟩ := clearLevels_spec h.summarized (h.word_lt hi)
  refine ⟨hs, ?_, fun j hj => ?_⟩
  · change o.n ≤ 64 * ((clearLevels o.levels i).headD []).length
    rw [hl]
    exact h.covers
  · rw [h.test_clear hi, Bool.and_eq_true] at hj
    exact h.bounded j hj.1

theorem Wf.test_of_ge {j : Nat} (hj : o.n ≤ j) : o.test j = false := by
  by_contra hbit
  have := h.bounded j (Bool.not_eq_false _ ▸ hbit)
  omega

theorem Wf.findNext (lo : Nat) : FirstFrom o.test lo (o.findNext lo) := by
  unfold Occupancy.findNext
  by_cases hlo : o.n ≤ lo
  · rw [if_pos hlo]
    exact fun j hj => h.test_of_ge (hlo.trans hj)
  · rw [if_neg hlo]
    exact findNextLevels_spec h.summarized

theorem Wf.findPrev (hi : Nat) : LastUpto o.test hi (o.findPrev hi) := by
  unfold Occupancy.findPrev
  by_cases hn : o.n = 0
  · rw [if_pos hn]
    exact fun j _ => h.test_of_ge (by omega)
  · rw [if_neg hn]
    have hspec : LastUpto _ (min hi (o.n - 1)) _ :=
      findPrevLevels_spec h.summarized (h.word_lt (by omega))
    -- Between the clamped start and `hi` there is no bit.
    cases hfind : findPrevLevels o.levels (min hi (o.n - 1)) with
    | none =>
      rw [hfind] at hspec
      intro j hj
      by_cases hjn : o.n ≤ j
      · exact h.test_of_ge hjn
      · exact hspec j (by omega)
    | some =>
      rw [hfind] at hspec
      obtain ⟨_, hbit, hafter⟩ := hspec
      refine ⟨by omega, hbit, fun j hj hj' => ?_⟩
      by_cases hjn : o.n ≤ j
      · exact h.test_of_ge hjn
      · exact hafter j hj (by omega)

theorem Wf.findFirstIn_eq (lo hi : Nat) :
    o.findFirstIn lo hi = (range' lo (hi - lo)).find? o.test := by
  unfold findFirstIn
  by_cases hempty : hi ≤ lo
  · rw [if_pos hempty, Nat.sub_eq_zero_of_le hempty]
    rfl
  rw [if_neg hempty]
  have hspec := h.findNext lo
  cases hfind : o.findNext lo with
  | none =>
    rw [hfind] at hspec
    symm
    rw [filter_none, find?_eq_none]
    intro j hj
    rw [hspec j (mem_range'_1.1 hj).1]
    decide
  | some i =>
    rw [hfind] at hspec
    obtain ⟨_, hbit, hbefore⟩ := hspec
    symm
    by_cases hlt : i < hi
    · rw [filter_some_pos (by simpa using hlt), find?_range'_eq_some]
      refine ⟨hbit, by rw [mem_range'_1]; omega, fun j hj hj' => ?_⟩
      rw [hbefore j hj hj']
      rfl
    · rw [filter_some_neg (by simpa using hlt), find?_eq_none]
      intro j hj
      rw [mem_range'_1] at hj
      rw [hbefore j hj.1 (by omega)]
      decide

theorem Wf.findLastIn_eq (lo hi : Nat) :
    o.findLastIn lo hi = (range' lo (hi - lo)).reverse.find? o.test := by
  unfold findLastIn
  by_cases hempty : hi ≤ lo
  · rw [if_pos hempty, Nat.sub_eq_zero_of_le hempty]
    rfl
  rw [if_neg hempty]
  have hspec := h.findPrev (hi - 1)
  have hnone : ∀ {i : Nat}, i < lo → (∀ j, i < j → j ≤ hi - 1 → o.test j = false) →
      (range' lo (hi - lo)).reverse.find? o.test = none := by
    intro i hi' hafter
    rw [find?_eq_none]
    intro j hj
    rw [mem_reverse, mem_range'_1] at hj
    rw [hafter j (by omega) (by omega)]
    decide
  cases hfind : o.findPrev (hi - 1) with
  | none =>
    rw [hfind] at hspec
    rw [filter_none, eq_comm, find?_eq_none]
    intro j hj
    rw [mem_reverse, mem_range'_1] at hj
    rw [hspec j (by omega)]
    decide
  | some i =>
    rw [hfind] at hspec
    obtain ⟨_, hbit, hafter⟩ := hspec
    by_cases hlo : lo ≤ i
    · rw [filter_some_pos (by simpa using hlo)]
      -- Split the range at `i`; nothing above it is set.
      have hsplit : range' lo (hi - lo) =
          range' lo (i - lo) ++ i :: range' (i + 1) (hi - 1 - i) := by
        have hrest : i :: range' (i + 1) (hi - 1 - i) = range' i (hi - i) := by
          rw [show hi - i = hi - 1 - i + 1 by omega, range'_succ]
        have happend := range'_append_1 (s := lo) (m := i - lo) (n := hi - i)
        rw [show lo + (i - lo) = i by omega, show i - lo + (hi - i) = hi - lo by omega] at happend
        rw [hrest, happend]
      rw [hsplit, reverse_append, reverse_cons, append_assoc, find?_append, find?_eq_none.2]
      · simp [hbit]
      · intro j hj
        rw [mem_reverse, mem_range'_1] at hj
        rw [hafter j (by omega) (by omega)]
        decide
    · rw [filter_some_neg (by simpa using hlo), hnone (by omega) hafter]

end Bitmap

/-! ## The bitmap as a set -/

/-- A call on a slot of a bitmap over `n` slots. -/
inductive Call (n : Nat)
  | set (i : Fin n)
  | clear (i : Fin n)

def Call.onBitmap {n : Nat} (o : Occupancy) : Call n → Occupancy
  | .set i => o.set i
  | .clear i => o.clear i

def Call.onSet {n : Nat} (s : Finset Nat) : Call n → Finset Nat
  | .set i => insert i.val s
  | .clear i => s.erase i

structure Represents (n : Nat) (o : Occupancy) (s : Finset Nat) : Prop where
  wf : o.Wf
  size : o.n = n
  test : o.test = fun j => decide (j ∈ s)

section Refinement

variable {n d : Nat} {o : Occupancy} {s : Finset Nat} {level upper : List Word}
  {levels : List (List Word)}

theorem Summarized.getElem? (h : Summarized levels) (hlevel : levels[d]? = some level)
    (hupper : levels[d + 1]? = some upper) (w : Nat) :
    bit upper w = true ↔ wordAt level w ≠ 0 := by
  induction levels generalizing d with
  | nil => exact h.elim
  | cons first rest ih =>
    rw [getElem?_cons_succ] at hupper
    have hne : rest ≠ [] := by
      rintro rfl
      cases hupper
    obtain ⟨-, hsum, hrest⟩ := (summarized_cons hne).1 h
    cases d with
    | zero =>
      obtain rfl : first = level := some_inj.1 hlevel
      rw [headD_eq_head?_getD, head?_eq_getElem?, hupper] at hsum
      rw [show bit upper w = _ from hsum w, decide_eq_true_eq]
    | succ => exact ih hrest hlevel hupper

theorem Represents.call (h : Represents n o s) (c : Call n) :
    Represents n (c.onBitmap o) (c.onSet s) := by
  cases c with
  | set i =>
    have hi : i < o.n := h.size ▸ i.isLt
    refine ⟨h.wf.set hi, h.size, funext fun j => (h.wf.test_set hi j).trans ?_⟩
    rw [h.test, ← Bool.decide_or]
    exact decide_eq_decide.2 (or_comm.trans Finset.mem_insert.symm)
  | clear i =>
    have hi : i < o.n := h.size ▸ i.isLt
    refine ⟨h.wf.clear hi, h.size, funext fun j => (h.wf.test_clear hi j).trans ?_⟩
    rw [h.test, ← Bool.decide_and]
    exact decide_eq_decide.2 (and_comm.trans Finset.mem_erase.symm)

theorem Represents.foldl (h : Represents n o s) (calls : List (Call n)) :
    Represents n (calls.foldl Call.onBitmap o) (calls.foldl Call.onSet s) := by
  induction calls generalizing o s with
  | nil => exact h
  | cons c rest ih => exact ih (h.call c)

end Refinement

/-- **The bitmap is a set.**  After any calls on its slots the two searches return the nearest
member in their direction, the bounded ones the first member of the range from below and from above,
and each summary level has the bits of the words of the level below that are not zero. -/
theorem bitmap_refines_set (n : Nat) (calls : List (Call n)) :
    let o := calls.foldl Call.onBitmap (new n)
    let s := calls.foldl Call.onSet ∅
    (∀ i, FirstFrom (· ∈ s) i (o.findNext i)) ∧ (∀ i, LastUpto (· ∈ s) i (o.findPrev i)) ∧
      (∀ lo hi, o.findFirstIn lo hi = (range' lo (hi - lo)).find? (· ∈ s)) ∧
      (∀ lo hi, o.findLastIn lo hi = (range' lo (hi - lo)).reverse.find? (· ∈ s)) ∧
      ∀ {d level upper}, o.levels[d]? = some level → o.levels[d + 1]? = some upper →
        ∀ w, bit upper w = true ↔ wordAt level w ≠ 0 := by
  intro o s
  have hstart : Represents n (new n) ∅ := ⟨wf_new n, rfl, funext (test_new n)⟩
  have h : Represents n o s := hstart.foldl calls
  rw [← h.test]
  exact ⟨h.wf.findNext, h.wf.findPrev, h.wf.findFirstIn_eq, h.wf.findLastIn_eq,
    h.wf.summarized.getElem?⟩

end Rsx.Book.Occupancy
