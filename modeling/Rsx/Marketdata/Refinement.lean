import Rsx.Marketdata.Applied
import Rsx.Marketdata.Levels
import Rsx.Marketdata.Published

/-!
# The shadow book follows the matching engine

The records of the engine, applied one by one, keep the orders of the shadow book those of the
ledger.  As the book of the engine has the same ledger, their levels agree, although the two books
differ in handles, slots and compression maps.  -/

namespace Rsx.Marketdata

open Function Book Book.Orderbook Matching Option ShadowBook

structure Shows (sh : ShadowBook) (L : Ledger) : Prop extends sh.Valid where
  anchored : Anchored sh.book
  lists : Lists sh.book.orders.capacity sh.book.held L
  mapped : ∀ h o, sh.book.held h = some o → sh.orderMap (orderId o) = some h

namespace Shows

variable {sh : ShadowBook} {L : Ledger}
  {id : OrderId} {x : Quote} {n room : Nat} {held : Nat → Option Resting} {qty : Int}

theorem new (symbolId : Nat) {config : BookConfig} {capacity : Nat} {midPrice : Int}
    (hcap : capacity ≤ NONE) (hsized : Sized config.tickSize midPrice) :
    Shows (new symbolId config capacity midPrice) fun _ => none where
  toValid := valid_new symbolId config midPrice hcap
  anchored := Anchored.new hsized capacity
  lists := Lists.empty _
  mapped := fun _ _ hnone => nomatch hnone

variable (h : Shows sh L)
include h

theorem find (hx : L id = some x) :
    ∃ handle o, sh.orderMap id = some handle ∧ sh.book.held handle = some o ∧ orderId o = id ∧
      quote o = x := by
  obtain ⟨handle, o, ho, hid⟩ := h.lists.found id x hx
  have hmap := h.mapped handle o ho
  have hquoted := h.lists.quoted handle o ho
  rw [hid] at hmap hquoted
  exact ⟨handle, o, hmap, ho, hid, some.inj (hquoted.symm.trans hx)⟩

theorem orderMap_none (hnone : L id = none) : sh.orderMap id = none := by
  refine eq_none_iff_forall_ne_some.2 fun handle hmap => ?_
  obtain ⟨o, ho, hid⟩ := h.map id handle hmap
  have hquoted := h.lists.quoted handle o ho
  rw [hid, hnone] at hquoted
  cases hquoted

theorem quotes_perm (hl : Lists n held L) : (quotes sh.book).Perm (quotesOf n held) := by
  obtain ⟨_, _, hk⟩ := h.kept
  exact (quotes_perm_quotesOf hk.queued).trans (h.lists.quotes_perm hl)

theorem total_eq (hl : Lists n held L) :
    sh.book.exchange.totalQty = heldQty n held fun _ => true := by
  obtain ⟨_, _, hk⟩ := h.kept
  rw [← sum_quotes hk.queued, ((h.quotes_perm hl).map Quote.qty).sum_eq, sum_quotesOf]

theorem of_handle {sh' : ShadowBook} {handle : Nat} {o : Resting}
    (ho : sh.book.held handle = some o) {v : Option Resting} (hupdates : sh.Updates handle v sh')
    (hframe : Frame sh.book sh'.book)
    (hranged : Ranged (maxPrice sh.book.config.tickSize) sh'.book)
    (hsame : ∀ o' ∈ v, orderId o' = orderId o)
    (hmap : sh'.orderMap = if v = none then update sh.orderMap (orderId o) none
      else sh.orderMap) :
    Shows sh' (update L (orderId o) (v.map quote)) where
  toValid := hupdates.valid
  anchored := h.anchored.of_frame hframe hranged
  lists := by
    rw [hupdates.capacity, hupdates.held]
    cases v with
    | none => exact h.lists.remove ho
    | some o' => exact h.lists.change ho (hsame o' rfl)
  mapped := by
    intro x o' ho'
    rw [hupdates.held] at ho'
    rcases eq_or_ne x handle with rfl | hne
    · rw [update_self] at ho'
      rw [hmap, if_neg (by simp [ho']), hsame o' ho']
      exact h.mapped x o ho
    · rw [update_of_ne hne] at ho'
      have hother := (h.lists.orderId_eq_iff ho ho').not.2 hne
      rw [hmap]
      split_ifs
      · rw [update_of_ne hother]
        exact h.mapped x o' ho'
      · exact h.mapped x o' ho'

theorem insert (hroom : room ≤ sh.book.orders.capacity)
    {tsNs userId orderIdHi orderIdLo : Nat} {price : Int} {side : Side} {reduceOnly : Bool}
    {tif : TimeInForce} (hadmits : Admits room (maxPrice sh.book.config.tickSize) L
      (.orderInserted tsNs userId orderIdHi orderIdLo price qty side reduceOnly tif)) :
    ∃ sh', sh.applyRecord
        (.orderInserted tsNs userId orderIdHi orderIdLo price qty side reduceOnly tif) =
          some (sh', some (side, price)) ∧
      Shows sh' (update L (orderIdHi, orderIdLo) (some ⟨side, price, qty⟩)) ∧
      sh'.book.orders.capacity = sh.book.orders.capacity ∧ sh'.book.config = sh.book.config := by
  obtain ⟨hprice, hmax, hqty, hnone, _, _, hl, hsum, _⟩ := hadmits
  obtain ⟨q, free, hk⟩ := h.kept
  rw [← h.total_eq hl] at hsum
  -- The slab has a free slot and the index is in bounds.
  obtain ⟨sh₁, hinsert⟩ : ∃ sh₁, sh.applyInsertById price qty side userId tsNs
      (orderIdHi, orderIdLo) = some sh₁ := by
    have hfull : (sh.book.entries q).length < sh.book.orders.capacity := by
      have hlength := (h.quotes_perm hl).length_eq
      rw [quotes, List.length_map, hk.queued.resting_eq, List.length_map] at hlength
      omega
    obtain ⟨handle, _, halloc⟩ := hk.queued.exists_alloc hfull
    obtain ⟨b', _, hrun, -⟩ := hk.queued.insertOrder
      (o := ShadowBook.inserted price qty side userId tsNs (orderIdHi, orderIdLo)) halloc rfl rfl
      (h.anchored.priceToIndex_lt price) hqty (by
        have hle := hk.queued.total_view_le (sh.book.compression.priceToIndex price)
        rw [hk.queued.totalQty_exchange] at hsum
        show PriceTime.total (sh.book.view q (sh.book.compression.priceToIndex price)) +
          qty ≤ i64Max
        omega)
    exact ⟨_, bind_eq_some_iff.2 ⟨(handle, b'), hrun, rfl⟩⟩
  obtain ⟨handle, hempty, hupdates, hmap, hframe⟩ :=
    h.toValid.applyInsertById hqty hsum hinsert
  have hranged : Ranged (maxPrice sh.book.config.tickSize) sh₁.book := by
    obtain ⟨⟨_, book⟩, hbook, hrest⟩ := bind_eq_some_iff.1 hinsert
    cases hrest
    exact h.anchored.ranged.insertResting ⟨hprice.le, hmax⟩ hbook
  have hanchored := h.anchored.of_frame hframe hranged
  obtain ⟨_, free₁, hk₁⟩ := hupdates.valid.kept
  obtain ⟨b', q', hrecenter, hk', hanchored', hheld', hconfig', hcap'⟩ :=
    hanchored.maybeRecenter hk₁ hupdates.valid.total
  have hlt : handle < sh.book.orders.capacity := by
    rw [← hupdates.capacity]
    refine hk₁.queued.held_lt ?_
    rw [hupdates.held, update_self]
    exact some_ne_none _
  refine ⟨{ sh₁ with book := b' }, ?_, ⟨⟨⟨q', free₁, hk'⟩, ?_, ?_⟩, hanchored', ?_, ?_⟩,
    hcap'.trans hupdates.capacity, hconfig'.trans hupdates.config⟩
  · show (sh.applyInsertById price qty side userId tsNs (orderIdHi, orderIdLo)).bind _ = _
    rw [hinsert]
    show (Option.map _ (Matching.maybeRecenter sh₁.book)).bind _ = _
    rw [hrecenter]
    rfl
  · rw [← hk'.queued.heldQty_eq, hcap', hheld', hk₁.queued.heldQty_eq]
    exact hupdates.valid.total
  · intro id x hx
    obtain ⟨o, ho, hid⟩ := hupdates.valid.map id x hx
    exact ⟨o, hheld' ▸ ho, hid⟩
  · rw [hcap', hheld', hupdates.capacity, hupdates.held]
    exact h.lists.insert
      (o := ShadowBook.inserted price qty side userId tsNs (orderIdHi, orderIdLo))
      hlt hempty hnone
  · intro x o ho
    rw [hheld', hupdates.held] at ho
    rw [hmap]
    rcases eq_or_ne x handle with rfl | hne
    · rw [update_self] at ho
      cases ho
      exact update_self ..
    · rw [update_of_ne hne] at ho
      have hother : orderId o ≠ (orderIdHi, orderIdLo) := by
        intro heq
        have hquoted := h.lists.quoted x o ho
        rw [heq, hnone] at hquoted
        cases hquoted
      rw [update_of_ne hother]
      exact h.mapped x o ho

theorem cancel (id : OrderId) (tsNs : Nat) :
    Shows (sh.applyCancelByOrderId id tsNs).1 (update L id none) ∧
      (sh.applyCancelByOrderId id tsNs).1.book.orders.capacity = sh.book.orders.capacity ∧
      (sh.applyCancelByOrderId id tsNs).1.book.config = sh.book.config := by
  cases hx : L id with
  | none =>
    have hsame : sh.applyCancelByOrderId id tsNs = (sh, none) := by
      unfold applyCancelByOrderId
      rw [h.orderMap_none hx]
    rw [hsame, ← hx, update_eq_self]
    exact ⟨h, rfl, rfl⟩
  | some =>
    obtain ⟨_, o, hmap, ho, rfl, -⟩ := h.find hx
    obtain ⟨_, _, hk⟩ := h.kept
    obtain ⟨-, hupdates, hmap', hframe⟩ := h.toValid.applyCancelByOrderId hmap ho tsNs
    have hranged : Ranged (maxPrice sh.book.config.tickSize)
        (sh.applyCancelByOrderId (orderId o) tsNs).1.book := by
      unfold applyCancelByOrderId
      simp only [hmap]
      exact h.anchored.ranged.cancelOrderChecked hk.queued (Anchored.maxPrice_nonneg _)
        (Anchored.maxPrice_le _) ..
    exact ⟨h.of_handle ho hupdates hframe hranged (fun _ hv => nomatch hv) hmap',
      hupdates.capacity, hupdates.config⟩

theorem fill (hx : L id = some x) (hpos : 0 < qty) (hle : qty ≤ x.qty) (tsNs : Nat) :
    Shows (sh.applyFillByOrderId id qty tsNs).1 (update L id (x.less qty)) ∧
      (sh.applyFillByOrderId id qty tsNs).1.book.orders.capacity = sh.book.orders.capacity ∧
      (sh.applyFillByOrderId id qty tsNs).1.book.config = sh.book.config := by
  obtain ⟨handle, o, hmap, ho, rfl, rfl⟩ := h.find hx
  obtain ⟨_, _, hk⟩ := h.kept
  obtain ⟨hactive, heq⟩ := slot_of_held ho
  have hmax : o.remainingQty ≤ i64Max := by
    obtain ⟨_, ht⟩ := (hk.queued.active handle).1 hactive
    rw [heq]
    exact hk.queued.repr.qty_le ht
  have hle : qty ≤ o.remainingQty := hle
  have hwrap : wrap64 (o.remainingQty - qty) = o.remainingQty - qty :=
    wrap64_of_nonneg (by omega) (by omega)
  have hless : (filled o qty).map quote = (quote o).less qty := by
    unfold filled Quote.less
    rw [hwrap]
    show _ = if o.remainingQty - qty ≤ 0 then none else _
    split_ifs with hdone hlower
    · rfl
    · omega
    · rfl
  obtain ⟨-, hupdates, hmap', hframe⟩ := h.toValid.applyFillByOrderId hmap ho qty tsNs
  have hranged : Ranged (maxPrice sh.book.config.tickSize)
      (sh.applyFillByOrderId (orderId o) qty tsNs).1.book := by
    unfold applyFillByOrderId
    simp only [hmap]
    split_ifs
    · exact h.anchored.ranged.cancelOrderChecked hk.queued (Anchored.maxPrice_nonneg _)
        (Anchored.maxPrice_le _) ..
    · exact h.anchored.ranged.modifyOrderQtyDown hk.queued (Anchored.maxPrice_nonneg _)
        (Anchored.maxPrice_le _) ..
  have hsame : ∀ o' ∈ filled o qty, orderId o' = orderId o := by
    intro o' ho'
    unfold filled at ho'
    split_ifs at ho'
    · cases ho'
    · exact some.inj ho' ▸ rfl
    · exact some.inj ho' ▸ rfl
  rw [← hless]
  exact ⟨h.of_handle ho hupdates hframe hranged hsame hmap', hupdates.capacity, hupdates.config⟩

/-- **One record.** -/
theorem applyRecord (hroom : room ≤ sh.book.orders.capacity)
    {r : Record} (hadmits : Admits room (maxPrice sh.book.config.tickSize) L r) :
    ∃ sh' update, sh.applyRecord r = some (sh', update) ∧ Shows sh' (L.record r) ∧
      sh'.book.orders.capacity = sh.book.orders.capacity ∧ sh'.book.config = sh.book.config := by
  cases r with
  | orderInserted =>
    obtain ⟨sh', hrun, hshows⟩ := h.insert hroom hadmits
    exact ⟨sh', _, hrun, hshows⟩
  | orderCancelled tsNs userId orderIdHi orderIdLo =>
    exact ⟨_, _, rfl, h.cancel (orderIdHi, orderIdLo) tsNs⟩
  | fill rec =>
    obtain ⟨hpos, x, hx, hle⟩ := hadmits
    refine ⟨_, _, rfl, ?_⟩
    have hrecord : L.record (.fill rec) =
        update L (rec.makerOrderIdHi, rec.makerOrderIdLo) (x.less rec.qty) := by
      show update L _ ((L _).bind _) = _
      rw [hx]
      rfl
    rw [hrecord]
    exact h.fill hx hpos hle rec.tsNs
  | _ => exact ⟨sh, none, rfl, h, rfl, rfl⟩

end Shows

/-! ## A run of the engine -/

def follow (sh : ShadowBook) (r : Record) : Option ShadowBook :=
  (sh.applyRecord r).map Prod.fst

/-- At most `room` orders rest after the action. -/
def Roomy (room : Nat) (e : Engine) (a : Action) : Prop :=
  ∀ e' ∈ e.step a, e'.book.resting.length ≤ room
  deriving Decidable

theorem Shows.follow {sh : ShadowBook} {L : Ledger} (h : Shows sh L) {room : Nat}
    (hroom : room ≤ sh.book.orders.capacity) {records : List Record}
    (hadmits : AdmitsAll room (maxPrice sh.book.config.tickSize) L records) :
    ∃ sh', run Marketdata.follow sh records = some sh' ∧ Shows sh' (L.records records) ∧
      sh'.book.orders.capacity = sh.book.orders.capacity ∧ sh'.book.config = sh.book.config := by
  induction records generalizing sh L with
  | nil => exact ⟨sh, rfl, h, rfl, rfl⟩
  | cons r records ih =>
    obtain ⟨_, _, hrun, hshows, hcap, hconfig⟩ := h.applyRecord hroom hadmits.1
    have hrest := hadmits.2 _ rfl
    rw [← hconfig] at hrest
    obtain ⟨sh', hrun', hshows', hcap', hconfig'⟩ := ih hshows (hcap ▸ hroom) hrest
    refine ⟨sh', ?_, hshows', hcap'.trans hcap, hconfig'.trans hconfig⟩
    show (Marketdata.follow sh r).bind _ = _
    unfold Marketdata.follow
    rw [hrun]
    exact hrun'

theorem Shows.published {sh : ShadowBook} {L : Ledger} (h : Shows sh L) {e : Engine}
    (hp : Published e L) :
    (∀ depth, (sh.deriveL2Snapshot depth).bids = (ladder (quotes e.book) .buy).take depth ∧
      (sh.deriveL2Snapshot depth).asks = (ladder (quotes e.book) .sell).take depth) ∧
      ∀ s p, ∃ delta, sh.deriveL2Delta s p = some delta ∧ delta.side = s ∧
        (⟨delta.price, delta.qty, delta.count⟩ : L2Level) = levelOf (quotes e.book) s p := by
  obtain ⟨_, _, hk⟩ := h.kept
  obtain ⟨_, _, hk'⟩ := hp.healthy.kept
  have hperm : (quotes sh.book).Perm (quotes e.book) :=
    (h.quotes_perm hp.lists).trans (quotes_perm_quotesOf hk'.queued).symm
  have hlevel : ∀ s p, levelOf (quotes sh.book) s p = levelOf (quotes e.book) s p :=
    fun s p => levelOf_perm hperm s p
  have hladder : ∀ s depth, sh.collectLevels s depth = (ladder (quotes e.book) s).take depth := by
    intro s depth
    rw [collectLevels_eq hk.queued h.total, ladder_congr (hlevel s)]
  refine ⟨fun depth => ⟨hladder .buy depth, hladder .sell depth⟩, fun s p => ?_⟩
  have hat := levelAt_eq (s := s) hk h.total (h.anchored.priceToIndex_lt p)
  rw [hlevel] at hat
  refine ⟨_, bind_eq_some_iff.2 ⟨_, hat, rfl⟩, rfl, rfl⟩

structure Mirrors (sh₀ : ShadowBook) (e : Engine) (L : Ledger) (sh : ShadowBook) : Prop where
  follows : run follow sh₀ (e.wal.records.map Prod.snd) = some sh
  published : Published e L
  shows : Shows sh L
  capacity : sh.book.orders.capacity = sh₀.book.orders.capacity
  config : sh.book.config = sh₀.book.config

theorem Mirrors.step {sh₀ sh : ShadowBook} {e e' : Engine} {L : Ledger} (h : Mirrors sh₀ e L sh)
    {a : Action} (hmodest : Modest (maxPrice sh₀.book.config.tickSize) e a) (hunique : FreshId e a)
    (hroom : Roomy sh₀.book.orders.capacity e a) (hstep : e.step a = some e') :
    ∃ L' sh', Mirrors sh₀ e' L' sh' := by
  obtain ⟨_, hwal⟩ := Engine.step_wal hstep
  obtain ⟨hadmits, hpublished⟩ := h.published.step hmodest hunique hstep (hroom _ hstep)
  rw [newRecords_eq hwal] at hadmits hpublished
  obtain ⟨sh', hrun, hshows, hcap, hconfig⟩ :=
    h.shows.follow h.capacity.ge (h.config.symm ▸ hadmits)
  refine ⟨_, sh', ?_, hpublished, hshows, hcap.trans h.capacity, hconfig.trans h.config⟩
  rw [hwal, WalWriter.map_snd_appendAll, run_append, h.follows]
  exact hrun

/-- **Refinement.**  The shadow book of the records of a run publishes the levels of the engine's
book. -/
theorem shadow_refines {config shadowConfig : BookConfig} {capacity shadowCapacity : Nat}
    {midPrice : Int} {actions : List Action} {e : Engine} (symbolId : Nat)
    (hcap : capacity ≤ NONE) (hshadow : shadowCapacity ≤ NONE)
    (hsized : Sized shadowConfig.tickSize midPrice)
    (hmodest : Along Engine.step (Modest (maxPrice shadowConfig.tickSize))
      (Engine.new config capacity) actions)
    (hunique : Along Engine.step FreshId (Engine.new config capacity) actions)
    (hroom : Along Engine.step (Roomy shadowCapacity) (Engine.new config capacity) actions)
    (hrun : run Engine.step (Engine.new config capacity) actions = some e) :
    ∃ sh, run follow (ShadowBook.new symbolId shadowConfig shadowCapacity midPrice)
        (e.wal.records.map Prod.snd) = some sh ∧
      (∀ depth, (sh.deriveL2Snapshot depth).bids = (ladder (quotes e.book) .buy).take depth ∧
        (sh.deriveL2Snapshot depth).asks = (ladder (quotes e.book) .sell).take depth) ∧
      ∀ s p, ∃ delta, sh.deriveL2Delta s p = some delta ∧ delta.side = s ∧
        (⟨delta.price, delta.qty, delta.count⟩ : L2Level) = levelOf (quotes e.book) s p := by
  set sh₀ := ShadowBook.new symbolId shadowConfig shadowCapacity midPrice
  have hstart : Mirrors sh₀ (Engine.new config capacity) (fun _ => none) sh₀ :=
    ⟨rfl, Published.new config hcap, Shows.new symbolId hshadow hsized, rfl, rfl⟩
  obtain ⟨L, sh, hmirrors⟩ := run_invariant (I := fun e => ∃ L sh, Mirrors sh₀ e L sh)
    (fun ⟨_, _, h⟩ ⟨⟨hmodest, hunique⟩, hroom⟩ hstep => h.step hmodest hunique hroom hstep)
    ⟨_, _, hstart⟩ ((hmodest.and hunique).and hroom) hrun
  exact ⟨sh, hmirrors.follows, hmirrors.shows.published hmirrors.published⟩

/-- Two orders rest, one of them is filled in part and the other is cancelled. -/
def partlyFilled : List Action :=
  [.limit 1 1 1 0 51000 5, .limit 2 2 0 0 49000 3, .limit 3 3 0 0 51000 2,
    .cancel { userId := 2, orderIdLo := 2 } 0]

theorem shadow_refines_partlyFilled :
    ∃ e sh, run Engine.step (Engine.new ⟨1, 1000, 1⟩ 8) partlyFilled = some e ∧
      run follow (ShadowBook.new 1 ⟨1, 1000, 1⟩ 8 7) (e.wal.records.map Prod.snd) = some sh ∧
      (sh.deriveL2Snapshot 10).asks = [⟨51000, 3, 1⟩] ∧ (sh.deriveL2Snapshot 10).bids = [] := by
  obtain ⟨e, he, hbids, hasks⟩ : ∃ e, run Engine.step (Engine.new ⟨1, 1000, 1⟩ 8) partlyFilled =
      some e ∧ ladder (quotes e.book) .buy = [] ∧ ladder (quotes e.book) .sell =
        [⟨51000, 3, 1⟩] := by
    decide +kernel
  obtain ⟨sh, hfollow, hsnapshot, -⟩ := @shadow_refines ⟨1, 1000, 1⟩ ⟨1, 1000, 1⟩ 8 8 7
    partlyFilled e 1 (by decide) (by decide) (by decide) (by decide +kernel) (by decide +kernel)
    (by decide +kernel) he
  refine ⟨e, sh, he, hfollow, ?_, ?_⟩
  · rw [(hsnapshot 10).2, hasks]
    rfl
  · rw [(hsnapshot 10).1, hbids]
    rfl

/-- The slots of all zones around this price number more than 2^32: their sum wraps around, and the
index of an order at the price is beyond the levels. -/
theorem shadow_stops_at_high_price :
    ((run Engine.step (Engine.new ⟨1, 1, 1⟩ 8) [.limit 1 1 1 0 34810000000 5]).map fun e =>
      (quotes e.book, (run follow (ShadowBook.new 1 ⟨1, 1, 1⟩ 8 34810000000)
        (e.wal.records.map Prod.snd)).isSome)) =
      some ([⟨.sell, 34810000000, 5⟩], false) := by
  decide +kernel

end Rsx.Marketdata
