import Rsx.Marketdata.Applied
import Rsx.Marketdata.Levels
import Rsx.Matching.Step

/-!
# The level a record touches

Whatever its records are, a shadow book changes at one price of one side with each of them, and the
delta of that price tells the level it has afterwards.
-/

namespace Rsx.Marketdata

open Function Book Book.Orderbook List Option

section Levels

variable {n h : Nat} {held : Nat → Option Resting} {quotes quotes' : List Quote} {s s₀ : Side}
  {p p₀ : Int} {x : Quote} {v : Option Resting}

theorem levelOf_cons (x : Quote) (quotes : List Quote) : levelOf (x :: quotes) s p =
      if x.side = s ∧ x.price = p then
        { levelOf quotes s p with
          qty := (levelOf quotes s p).qty + x.qty, count := (levelOf quotes s p).count + 1 }
      else levelOf quotes s p := by
  rw [levelOf_perm (perm_append_singleton x quotes).symm, levelOf_concat]

theorem quotesOf_update_perm (hh : h < n) (v : Option Resting) : (quotesOf n (update held h v)).Perm
      ((v.map quote).toList ++ quotesOf n (update held h none)) := by
  have hmem : h ∈ range n := mem_range.2 hh
  have hrest : ((range n).erase h).filterMap
      (fun k => (update held h v k).map quote) =
        ((range n).erase h).filterMap fun k => (update held h none k).map quote := by
    refine filterMap_congr fun k hk => ?_
    have hne : k ≠ h := (nodup_range.mem_erase_iff.1 hk).1
    rw [update_of_ne hne, update_of_ne hne]
  have hfront : ∀ v : Option Resting, (quotesOf n (update held h v)).Perm
      ((h :: (range n).erase h).filterMap fun k => (update held h v k).map quote) :=
    fun v => (perm_cons_erase hmem).filterMap _
  refine (hfront v).trans ?_
  have hnone : (quotesOf n (update held h none)).Perm
      (((range n).erase h).filterMap fun k => (update held h none k).map quote) := by
    have hperm := hfront none
    rwa [filterMap_cons, update_self] at hperm
  cases v with
  | none =>
    rw [filterMap_cons, update_self]
    exact hnone.symm
  | some o =>
    rw [filterMap_cons, update_self, hrest]
    exact (hnone.symm).cons (quote o)

theorem levelOf_update (hh : h < n)
    (hv : ∀ o ∈ v, o.side = s₀ ∧ o.price = p₀) (hne : (s, p) ≠ (s₀, p₀)) :
    levelOf (quotesOf n (update held h v)) s p = levelOf (quotesOf n (update held h none)) s p := by
  rw [levelOf_perm (quotesOf_update_perm hh v)]
  cases v with
  | none => rfl
  | some o =>
    obtain ⟨hside, hprice⟩ := hv o rfl
    have hother : ¬((quote o).side = s ∧ (quote o).price = p) := by
      rintro ⟨rfl, rfl⟩
      exact hne (Prod.ext hside hprice)
    rw [map_some, toList_some, singleton_append, levelOf_cons, if_neg hother]

theorem count_update (held : Nat → Option Resting) (hh : h < n)
    (hv : ∀ o ∈ v, o.side = s₀ ∧ o.price = p₀) :
    (levelOf (quotesOf n (update held h v)) s₀ p₀).count =
      (levelOf (quotesOf n (update held h none)) s₀ p₀).count + v.toList.length := by
  rw [levelOf_perm (quotesOf_update_perm hh v)]
  cases v with
  | none => rfl
  | some o =>
    rw [map_some, toList_some, singleton_append, levelOf_cons,
      if_pos (show (quote o).side = s₀ ∧ (quote o).price = p₀ from hv o rfl)]
    rfl

end Levels

namespace ShadowBook

variable {sh sh' : ShadowBook} {h : Nat} {o : Resting} {v : Option Resting} {place : Side × Int}
  {s : Side} {p : Int} {r : Matching.Record} {update : Option (Side × Int)}
  {tsNs : Nat} {qty : Int} {id : OrderId}

def level (sh : ShadowBook) (s : Side) (p : Int) : L2Level :=
  levelOf (quotes sh.book) s p

/-- A book whose levels differ from those of another at one place only. -/
structure Touched (sh : ShadowBook) (place : Side × Int) (sh' : ShadowBook) : Prop where
  others : ∀ s p, (s, p) ≠ place → sh'.level s p = sh.level s p
  delta : sh'.deriveL2Delta place.1 place.2 = some
    { symbolId := sh'.symbolId, side := place.1, price := place.2
      qty := (sh'.level place.1 place.2).qty, count := (sh'.level place.1 place.2).count
      timestampNs := sh'.timestampNs, seq := sh'.seq }

section

variable (hv : sh.Valid)
include hv

theorem Valid.level_eq (s : Side) (p : Int) :
    sh.level s p = levelOf (quotesOf sh.book.orders.capacity sh.book.held) s p := by
  obtain ⟨_, _, hk⟩ := hv.kept
  exact levelOf_perm (quotes_perm_quotesOf hk.queued) s p

theorem Valid.priceToIndex_lt (ho : sh.book.held h = some o) :
    sh.book.compression.priceToIndex o.price < sh.book.compression.totalSlots := by
  obtain ⟨_, _, hk⟩ := hv.kept
  obtain ⟨hactive, rfl⟩ := slot_of_held ho
  obtain ⟨t, ht⟩ := (hk.queued.active h).1 hactive
  have hindex : sh.book.compression.priceToIndex (sh.book.slot h).price = t :=
    hk.indexed t (sh.book.entry h) (mem_map_of_mem ht)
  refine lt_of_eq_of_lt hindex ?_
  by_contra hout
  rw [hk.queued.repr.outside t (not_lt.1 hout)] at ht
  exact not_mem_nil ht

theorem Valid.deriveL2Delta_eq
    (hlt : sh.book.compression.priceToIndex p < sh.book.compression.totalSlots) :
    sh.deriveL2Delta s p = some
      { symbolId := sh.symbolId, side := s, price := p, qty := (sh.level s p).qty
        count := (sh.level s p).count, timestampNs := sh.timestampNs, seq := sh.seq } := by
  obtain ⟨_, _, hk⟩ := hv.kept
  unfold deriveL2Delta
  rw [levelAt_eq hk hv.total hlt]
  rfl

theorem Updates.others (hupdates : sh.Updates h v sh')
    (hlt : h < sh.book.orders.capacity)
    (hold : ∀ o ∈ sh.book.held h, o.side = place.1 ∧ o.price = place.2)
    (hnew : ∀ o ∈ v, o.side = place.1 ∧ o.price = place.2) {s : Side} {p : Int}
    (hne : (s, p) ≠ place) : sh'.level s p = sh.level s p := by
  rw [hupdates.valid.level_eq, hv.level_eq, hupdates.capacity, hupdates.held,
    levelOf_update hlt hnew hne, ← levelOf_update hlt hold hne, update_eq_self]

theorem Updates.emptied (hupdates : sh.Updates h v sh')
    (ho : sh.book.held h = some o) (hplace : (o.side, o.price) = place)
    (hnew : ∀ o ∈ v, o.side = place.1 ∧ o.price = place.2)
    (hempty : (sh'.level place.1 place.2).count = 0) :
    v = none ∧ (sh.level place.1 place.2).count = 1 := by
  have hlt := hv.held_lt ho
  have hold : ∀ o ∈ sh.book.held h, o.side = place.1 ∧ o.price = place.2 := by
    intro o' ho'
    obtain rfl := some.inj (ho.symm.trans ho')
    exact ⟨congrArg Prod.fst hplace, congrArg Prod.snd hplace⟩
  have hafter := count_update sh.book.held hlt hnew
  have hbefore := count_update sh.book.held hlt hold
  rw [update_eq_self, ← hv.level_eq, ho] at hbefore
  rw [← hupdates.held, ← hupdates.capacity, ← hupdates.valid.level_eq] at hafter
  rw [hupdates.capacity] at hafter
  refine ⟨?_, ?_⟩
  · cases v with
    | none => rfl
    | some =>
      rw [toList_some, length_singleton] at hafter
      omega
  · rw [hbefore, toList_some, length_singleton]
    omega

end

def ending (sh : ShadowBook) : Matching.Record → Option Resting
  | .orderCancelled _ _ orderIdHi orderIdLo _ _ _ =>
    (sh.orderMap (orderIdHi, orderIdLo)).bind sh.book.held
  | .fill rec =>
    ((sh.orderMap (rec.makerOrderIdHi, rec.makerOrderIdLo)).bind sh.book.held).filter fun o =>
      wrap64 (o.remainingQty - rec.qty) ≤ 0
  | _ => none

/-- The quantity of an insert is positive and fits `i64` with those of the book. -/
def Fits (sh : ShadowBook) : Matching.Record → Prop
  | .orderInserted _ _ _ _ _ qty _ _ _ => 0 < qty ∧ sh.book.exchange.totalQty + qty ≤ i64Max
  | _ => True

instance (sh : ShadowBook) : ∀ r, Decidable (sh.Fits r)
  | .orderInserted .. => inferInstanceAs (Decidable (_ ∧ _))
  | .orderAccepted _ | .fill _ | .orderCancelled .. | .orderDone .. | .orderFailed .. | .bbo ..
  | .configApplied .. => .isTrue trivial

structure Applies (sh : ShadowBook) (r : Matching.Record) (sh' : ShadowBook)
    (update : Option (Side × Int)) : Prop where
  valid : sh'.Valid
  symbolId : sh'.symbolId = sh.symbolId
  same : update = none → sh' = sh
  touched : ∀ place ∈ update, sh.Touched place sh'
  emptied : ∀ place ∈ update, (sh'.level place.1 place.2).count = 0 →
    ∃ o ∈ sh.ending r, (o.side, o.price) = place ∧ (sh.level place.1 place.2).count = 1

theorem Updates.applies (hv : sh.Valid) (hupdates : sh.Updates h v sh')
    (ho : sh.book.held h = some o) (hframe : Frame sh.book sh'.book)
    (hnew : ∀ o' ∈ v, o'.side = o.side ∧ o'.price = o.price)
    (hending : v = none → sh.ending r = some o) :
    sh.Applies r sh' (some (o.side, o.price)) where
  valid := hupdates.valid
  symbolId := hupdates.symbolId
  same := fun hnone => nomatch hnone
  touched := by
    rintro place ⟨⟩
    have hold : ∀ o' ∈ sh.book.held h, o'.side = o.side ∧ o'.price = o.price := by
      intro o' ho'
      obtain rfl := some.inj (ho.symm.trans ho')
      exact ⟨rfl, rfl⟩
    refine ⟨fun s p hne => hupdates.others hv (hv.held_lt ho) hold hnew hne,
      hupdates.valid.deriveL2Delta_eq ?_⟩
    rw [hframe.compression]
    exact hv.priceToIndex_lt ho
  emptied := by
    rintro place ⟨⟩ hempty
    obtain ⟨hnone, hcount⟩ := hupdates.emptied hv ho rfl hnew hempty
    exact ⟨o, hending hnone, rfl, hcount⟩

theorem Updates.applies_new (hv : sh.Valid) (hupdates : sh.Updates h (some o) sh')
    (hnone : sh.book.held h = none) : sh.Applies r sh' (some (o.side, o.price)) := by
  have ho : sh'.book.held h = some o := by
    rw [hupdates.held, update_self]
  have hlt : h < sh.book.orders.capacity := hupdates.capacity ▸ hupdates.valid.held_lt ho
  have hnew : ∀ o' ∈ some o, o'.side = o.side ∧ o'.price = o.price := by
    rintro o' ⟨⟩
    exact ⟨rfl, rfl⟩
  have hold : ∀ o' ∈ sh.book.held h, o'.side = o.side ∧ o'.price = o.price := by
    rw [hnone]
    exact fun _ ho' => nomatch ho'
  refine ⟨hupdates.valid, hupdates.symbolId, (fun hupdate => nomatch hupdate), ?_, ?_⟩
  · rintro place ⟨⟩
    exact ⟨fun s p hne => hupdates.others hv hlt hold hnew hne,
      hupdates.valid.deriveL2Delta_eq (hupdates.valid.priceToIndex_lt ho)⟩
  · rintro place ⟨⟩ hempty
    have hcount := count_update sh.book.held hlt hnew
    rw [hupdates.valid.level_eq, hupdates.capacity, hupdates.held, hcount] at hempty
    exact absurd hempty (Nat.succ_ne_zero _)

theorem Updates.maybeRecenter (hupdates : sh.Updates h v sh')
    {sh₂ : ShadowBook} (hrun : sh'.maybeRecenter = some sh₂) : sh.Updates h v sh₂ := by
  obtain ⟨b', hb', rfl⟩ := map_eq_some_iff.1 hrun
  obtain ⟨_, free, hk⟩ := hupdates.valid.kept
  obtain ⟨q', hk', hheld', -, -, hconfig', hcap'⟩ :=
    Matching.maybeRecenter_kept hk hupdates.valid.total hb'
  refine ⟨⟨⟨q', free, hk'⟩, ?_, ?_⟩, hheld'.trans hupdates.held, hcap'.trans hupdates.capacity,
    hconfig'.trans hupdates.config, hupdates.symbolId⟩
  · rw [← hk'.queued.heldQty_eq, hcap', hheld', hk.queued.heldQty_eq]
    exact hupdates.valid.total
  · intro id h' hid
    obtain ⟨o', ho', hid'⟩ := hupdates.valid.map id h' hid
    exact ⟨o', hheld' ▸ ho', hid'⟩

theorem Valid.applies_insert (hv : sh.Valid) {userId orderIdHi orderIdLo : Nat}
    {price : Int} {side : Side} {reduceOnly : Bool} {tif : TimeInForce}
    (hfits : sh.Fits (.orderInserted tsNs userId orderIdHi orderIdLo price qty side reduceOnly tif))
    (hrun : sh.applyRecord
      (.orderInserted tsNs userId orderIdHi orderIdLo price qty side reduceOnly tif) =
        some (sh', update)) : sh.Applies r sh' update := by
  obtain ⟨_, hinsert, hrun⟩ := bind_eq_some_iff.1 hrun
  obtain ⟨_, hrecenter, hrun⟩ := bind_eq_some_iff.1 hrun
  obtain ⟨rfl, rfl⟩ := Prod.mk.inj (some.inj hrun)
  obtain ⟨_, hnone, hupdates, -, -⟩ := hv.applyInsertById hfits.1 hfits.2 hinsert
  exact (hupdates.maybeRecenter hrecenter).applies_new hv hnone

theorem Valid.applies_same (hv : sh.Valid) : sh.Applies r sh none where
  valid := hv
  symbolId := rfl
  same := fun _ => rfl
  touched := fun _ hplace => nomatch hplace
  emptied := fun _ hplace => nomatch hplace

theorem Valid.applies_cancel (hv : sh.Valid)
    (hrun : sh.applyCancelByOrderId id tsNs = (sh', update))
    (hending : sh.ending r = (sh.orderMap id).bind sh.book.held) : sh.Applies r sh' update := by
  cases hmap : sh.orderMap id with
  | none =>
    unfold ShadowBook.applyCancelByOrderId at hrun
    rw [hmap] at hrun
    obtain ⟨rfl, rfl⟩ := Prod.mk.inj hrun
    exact hv.applies_same
  | some =>
    obtain ⟨_, ho, _⟩ := hv.map _ _ hmap
    obtain ⟨hplace, hupdates, -, hframe⟩ := hv.applyCancelByOrderId hmap ho tsNs
    rw [hrun] at hplace hupdates hframe
    subst hplace
    refine hupdates.applies hv ho hframe (fun _ ho' => nomatch ho') fun _ => ?_
    rw [hending, hmap]
    exact ho

theorem filled_eq_none (hnone : filled o qty = none) : wrap64 (o.remainingQty - qty) ≤ 0 := by
  by_contra hnot
  unfold filled at hnone
  split_ifs at hnone

theorem filled_place {o' : Resting} (ho' : o' ∈ filled o qty) :
    o'.side = o.side ∧ o'.price = o.price := by
  unfold filled at ho'
  split_ifs at ho'
  · cases ho'
  · exact some.inj ho' ▸ ⟨rfl, rfl⟩
  · exact some.inj ho' ▸ ⟨rfl, rfl⟩

theorem Valid.applies_fill (hv : sh.Valid)
    (hrun : sh.applyFillByOrderId id qty tsNs = (sh', update))
    (hending : sh.ending r = ((sh.orderMap id).bind sh.book.held).filter fun o =>
      wrap64 (o.remainingQty - qty) ≤ 0) : sh.Applies r sh' update := by
  cases hmap : sh.orderMap id with
  | none =>
    unfold ShadowBook.applyFillByOrderId at hrun
    rw [hmap] at hrun
    obtain ⟨rfl, rfl⟩ := Prod.mk.inj hrun
    exact hv.applies_same
  | some =>
    obtain ⟨_, ho, _⟩ := hv.map _ _ hmap
    obtain ⟨hplace, hupdates, -, hframe⟩ := hv.applyFillByOrderId hmap ho qty tsNs
    rw [hrun] at hplace hupdates hframe
    subst hplace
    refine hupdates.applies hv ho hframe (fun _ ho' => filled_place ho') fun hnone => ?_
    rw [hending, hmap, bind_some, ho, filter_some,
      if_pos (decide_eq_true (filled_eq_none hnone))]

/-- **One record.** -/
theorem Valid.applies (hv : sh.Valid) (hfits : sh.Fits r)
    (hrun : sh.applyRecord r = some (sh', update)) : sh.Applies r sh' update := by
  cases r with
  | orderInserted =>
    exact hv.applies_insert hfits hrun
  | orderCancelled =>
    exact hv.applies_cancel (some.inj hrun) rfl
  | fill => exact hv.applies_fill (some.inj hrun) rfl
  | _ =>
    obtain ⟨rfl, rfl⟩ := Prod.mk.inj (some.inj hrun)
    exact hv.applies_same

end ShadowBook

end Rsx.Marketdata
