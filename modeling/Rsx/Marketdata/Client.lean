import Rsx.Marketdata.State
import Rsx.Marketdata.Touched

/-!
# The ladder of a client

`book.go` of `rsx-core`: a client folds the snapshots and deltas of a symbol into a ladder of each
side.  The ladder tracks that of the shadow book when it starts from a snapshot and takes every
delta.  -/

namespace Rsx.Marketdata

open Book List

inductive LevelOrder
  | descending
  | ascending
  deriving DecidableEq, Repr

def LevelOrder.passed : LevelOrder → Int → Int → Bool
  | .descending, px, price => px < price
  | .ascending, px, price => price < px

def applyLevel (levels : List L2Level) (d : L2Delta) (order : LevelOrder) : List L2Level :=
  let idx := levels.findIdx fun level => level.price = d.price ∨ order.passed level.price d.price
  let found := levels[idx]?.any fun level => level.price = d.price
  if d.qty = 0 then
    if found then levels.eraseIdx idx else levels
  else
    let level : L2Level := { price := d.price, qty := d.qty, count := d.count }
    if found then levels.set idx level else levels.insertIdx idx level

/-- `Book` of `book.go`, for one symbol. -/
structure ClientBook where
  bids : List L2Level := []
  asks : List L2Level := []
  deriving DecidableEq, Repr

namespace ClientBook

def applySnapshot (_ : ClientBook) (s : L2Snapshot) : ClientBook where
  bids := s.bids
  asks := s.asks

def applyDelta (b : ClientBook) (d : L2Delta) : ClientBook :=
  match d.side with
  | .buy => { b with bids := applyLevel b.bids d .descending }
  | .sell => { b with asks := applyLevel b.asks d .ascending }

def apply (symbolId : Nat) (b : ClientBook) : MdFrame → ClientBook
  | .snapshot s => if s.symbolId = symbolId then b.applySnapshot s else b
  | .delta d => if d.symbolId = symbolId then b.applyDelta d else b
  | _ => b

def fold (symbolId : Nat) (frames : List MdFrame) : ClientBook :=
  frames.foldl (apply symbolId) {}

def side (b : ClientBook) : Side → List L2Level
  | .buy => b.bids
  | .sell => b.asks

end ClientBook

/-! ## Ladders -/

def levelKey (s : Side) (level : L2Level) : Int :=
  s.key level.price

def Side.levelOrder : Side → LevelOrder
  | .buy => .descending
  | .sell => .ascending

theorem passed_iff {s : Side} {px price : Int} :
    (Side.levelOrder s).passed px price = true ↔ s.key price < s.key px := by
  cases s with
  | buy =>
    show decide (px < price) = true ↔ -price < -px
    rw [decide_eq_true_eq, neg_lt_neg_iff]
  | sell =>
    show decide (price < px) = true ↔ price < px
    rw [decide_eq_true_eq]

def L2Delta.level (d : L2Delta) : L2Level where
  price := d.price
  qty := d.qty
  count := d.count

theorem applyLevel_cons (x : L2Level) (levels : List L2Level) (d : L2Delta) (order : LevelOrder) :
    applyLevel (x :: levels) d order =
      if x.price = d.price then if d.qty = 0 then levels else d.level :: levels
      else if order.passed x.price d.price then
        if d.qty = 0 then x :: levels else d.level :: x :: levels
      else x :: applyLevel levels d order := by
  unfold applyLevel
  by_cases heq : x.price = d.price
  · have hidx : (x :: levels).findIdx (fun level => level.price = d.price ∨
        order.passed level.price d.price) = 0 := by
      simp [findIdx_cons, heq]
    simp only [hidx, List.getElem?_cons_zero, Option.any_some, heq, decide_true, if_true,
      eraseIdx_cons_zero, set_cons_zero]
    rfl
  · by_cases hpassed : order.passed x.price d.price = true
    · have hidx : (x :: levels).findIdx (fun level => level.price = d.price ∨
          order.passed level.price d.price) = 0 := by
        simp [findIdx_cons, hpassed]
      simp only [hidx, List.getElem?_cons_zero, Option.any_some, heq, decide_false,
        Bool.false_eq_true, if_false, hpassed, if_true, insertIdx_zero]
      rfl
    · have hidx : (x :: levels).findIdx (fun level => level.price = d.price ∨
          order.passed level.price d.price) = levels.findIdx (fun level => level.price = d.price ∨
              order.passed level.price d.price) + 1 := by
        simp [findIdx_cons, heq, hpassed]
      simp only [hidx, List.getElem?_cons_succ, eraseIdx_cons_succ, set_cons_succ,
        insertIdx_succ_cons]
      split_ifs <;> rfl

theorem applyLevel_eq (levels : List L2Level) (d : L2Delta) (s : Side) :
    applyLevel levels d (Side.levelOrder s) =
      if d.qty = 0 then Ladder.remove (levelKey s) (s.key d.price) levels
      else Ladder.put (levelKey s) d.level levels := by
  induction levels with
  | nil =>
    unfold applyLevel
    split_ifs <;> rfl
  | cons x levels ih =>
    have heq : levelKey s x = s.key d.price ↔ x.price = d.price := (key_injective s).eq_iff
    have hlt : s.key d.price < levelKey s x ↔ (Side.levelOrder s).passed x.price d.price = true :=
      passed_iff.symm
    have hlevel : levelKey s d.level = s.key d.price := rfl
    rw [applyLevel_cons, ih, Ladder.remove_cons, Ladder.put_cons]
    simp only [hlevel, heq, hlt]
    split_ifs <;> rfl

/-! ## The ladders of a shadow book -/

namespace ShadowBook

variable {sh sh' : ShadowBook} {place : Side × Int} {s : Side} {p : Int}

def levels (sh : ShadowBook) (s : Side) : List L2Level :=
  ladder (quotes sh.book) s

theorem sorted_levels (sh : ShadowBook) (s : Side) : Ladder.Sorted (levelKey s) (sh.levels s) :=
  sorted_ladder _ s

theorem Touched.levels_of_ne (h : sh.Touched place sh') (hne : s ≠ place.1) :
    sh'.levels s = sh.levels s :=
  ladder_congr fun p => h.others s p fun heq => hne (congrArg Prod.fst heq)

theorem Touched.levels_eq (h : sh.Touched place sh') : sh'.levels place.1 =
      if (sh'.level place.1 place.2).count = 0 then
        Ladder.remove (levelKey place.1) (place.1.key place.2) (sh.levels place.1)
      else Ladder.put (levelKey place.1) (sh'.level place.1 place.2) (sh.levels place.1) := by
  obtain ⟨s, p⟩ := place
  have hsorted := sh.sorted_levels s
  have hkey : ∀ level : L2Level, levelKey s level = s.key p ↔ level.price = p :=
    fun level => (key_injective s).eq_iff
  have hmem : ∀ level, level ∈ sh'.levels s ↔ 0 < level.count ∧ level = sh'.level s level.price :=
    fun level => mem_ladder
  have hother : ∀ level : L2Level, level.price ≠ p →
      (level ∈ sh'.levels s ↔ level ∈ sh.levels s) := by
    intro level hne
    rw [hmem, h.others s level.price fun heq => hne (congrArg Prod.snd heq)]
    exact mem_ladder.symm
  split_ifs with hcount
  · refine (sh'.sorted_levels s).ext (hsorted.remove _) fun level => ?_
    rw [Ladder.mem_remove hsorted, ne_eq, hkey]
    by_cases hp : level.price = p
    · rw [hmem, hp]
      constructor
      · rintro ⟨hpos, heq⟩
        rw [heq] at hpos
        exact absurd hcount hpos.ne'
      · exact fun hnot => absurd rfl hnot.2
    · rw [← hother level hp]
      exact ⟨fun hlevel => ⟨hlevel, hp⟩, And.left⟩
  · refine (sh'.sorted_levels s).ext (hsorted.put _) fun level => ?_
    have hown : levelKey s (sh'.level s p) = s.key p := rfl
    rw [Ladder.mem_put hsorted, ne_eq, hown, hkey]
    by_cases hp : level.price = p
    · rw [hmem, hp]
      constructor
      · exact fun hlevel => .inl hlevel.2
      · rintro (rfl | hnot)
        · exact ⟨Nat.pos_of_ne_zero hcount, rfl⟩
        · exact absurd rfl hnot.2
    · rw [← hother level hp]
      constructor
      · exact fun hlevel => .inr ⟨hlevel, hp⟩
      · rintro (rfl | hlevel)
        · exact absurd rfl hp
        · exact hlevel.1

theorem Valid.level_qty_eq_zero (hv : sh.Valid) :
    (sh.level s p).qty = 0 ↔ (sh.level s p).count = 0 := by
  obtain ⟨_, _, hk⟩ := hv.kept
  have hpos : ∀ x ∈ (quotes sh.book).filter (fun x => x.side = s ∧ x.price = p), 0 < x.qty :=
    fun x hx => quotes_pos hk.queued x (mem_of_mem_filter hx)
  show (((quotes sh.book).filter _).map Quote.qty).sum = 0 ↔ ((quotes sh.book).filter _).length = 0
  revert hpos
  cases (quotes sh.book).filter (fun x => x.side = s ∧ x.price = p) with
  | nil => exact fun _ => ⟨fun _ => rfl, fun _ => rfl⟩
  | cons x rest =>
    intro hpos
    have hx := hpos x (mem_cons_self ..)
    have hrest : 0 ≤ (rest.map Quote.qty).sum := by
      refine sum_nonneg fun qty hqty => ?_
      obtain ⟨y, hy, rfl⟩ := mem_map.1 hqty
      exact (hpos y (mem_cons_of_mem _ hy)).le
    rw [map_cons, sum_cons]
    constructor
    · omega
    · exact fun hlength => absurd hlength (Nat.succ_ne_zero _)

end ShadowBook

/-! ## What a client sees -/

/-- The ladders of a client track those of a book, the first `d` levels of each side. -/
def Sees (d : Nat) (levels : Side → List L2Level) (b : ClientBook) : Prop :=
  ∀ s, Ladder.Tracks (levelKey s) d (levels s) (b.side s)

namespace ClientBook

variable {d symbolId : Nat} {b : ClientBook} {levels : Side → List L2Level}
  {sh sh' : ShadowBook} {place : Side × Int}

def frameSymbol : MdFrame → Option Nat
  | .snapshot s => some s.symbolId
  | .delta d => some d.symbolId
  | _ => none

theorem apply_of_ne {frame : MdFrame} (hne : frameSymbol frame ≠ some symbolId) :
    apply symbolId b frame = b := by
  cases frame with
  | snapshot | delta => exact if_neg fun heq => hne (congrArg some heq)
  | _ => rfl

theorem fold_append (symbolId : Nat) (frames frames' : List MdFrame) :
    fold symbolId (frames ++ frames') = frames'.foldl (apply symbolId) (fold symbolId frames) :=
  foldl_append ..

theorem fold_append_of_ne {frames frames' : List MdFrame}
    (hne : ∀ frame ∈ frames', frameSymbol frame ≠ some symbolId) :
    fold symbolId (frames ++ frames') = fold symbolId frames := by
  rw [fold_append]
  induction frames' with
  | nil => rfl
  | cons frame rest ih =>
    rw [foldl_cons, apply_of_ne (hne frame (mem_cons_self ..))]
    exact ih fun frame' hframe' => hne frame' (mem_cons_of_mem _ hframe')

/-- **A snapshot.** -/
theorem sees_snapshot {s : L2Snapshot} (hsorted : ∀ side, Ladder.Sorted (levelKey side)
    (levels side))
    (hbids : s.bids = (levels .buy).take d) (hasks : s.asks = (levels .sell).take d) :
    Sees d levels (b.applySnapshot s) := by
  intro side
  cases side with
  | buy =>
    show Ladder.Tracks _ d _ s.bids
    rw [hbids]
    exact Ladder.tracks_take (hsorted _) d
  | sell =>
    show Ladder.Tracks _ d _ s.asks
    rw [hasks]
    exact Ladder.tracks_take (hsorted _) d

theorem side_applyDelta (b : ClientBook) (delta : L2Delta) (s : Side) :
    (b.applyDelta delta).side s =
      if s = delta.side then applyLevel (b.side s) delta (Side.levelOrder s) else b.side s := by
  unfold applyDelta
  cases hside : delta.side <;> cases s <;> rfl

/-- **A delta.**  When a level among the first `d` goes, the next one must have been told. -/
theorem sees_delta (h : Sees d sh.levels b) (ht : sh.Touched place sh') (hv : sh'.Valid)
    {delta : L2Delta} (hdelta : sh'.deriveL2Delta place.1 place.2 = some delta)
    (hnext : (sh'.level place.1 place.2).count = 0 →
      place.1.key place.2 ∈ ((sh.levels place.1).take d).map (levelKey place.1) →
        ∀ level ∈ (sh.levels place.1)[d]?, level ∈ b.side place.1) :
    Sees d sh'.levels (b.applyDelta delta) := by
  obtain rfl := Option.some.inj (ht.delta.symm.trans hdelta)
  intro s
  rw [side_applyDelta]
  by_cases hs : s = place.1
  · obtain ⟨s₀, p⟩ := place
    obtain rfl : s = s₀ := hs
    have hlevels := ht.levels_eq
    have hqty := hv.level_qty_eq_zero (s := s) (p := p)
    rw [if_pos rfl, applyLevel_eq, hlevels]
    by_cases hcount : (sh'.level s p).count = 0
    · rw [if_pos hcount, if_pos (hqty.2 hcount)]
      exact (h s).remove (sh.sorted_levels s) (hnext hcount)
    · rw [if_neg hcount, if_neg fun hzero => hcount (hqty.1 hzero)]
      exact (h s).put (sh.sorted_levels s) _
  · rw [if_neg hs, ht.levels_of_ne hs]
    exact h s

end ClientBook

end Rsx.Marketdata
