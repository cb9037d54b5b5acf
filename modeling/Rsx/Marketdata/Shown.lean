import Rsx.Marketdata.Feed

/-!
# What a client is shown

The frames a client was sent, and those queued for it, fold to ladders that track the shadow books
of the symbols whose depth it follows.  The queue is shared by all of its symbols, and a snapshot of
one of them drops it: what was queued for the others is lost then.  -/

namespace Rsx.Marketdata

open Function Book ClientBook List ShadowBook Option ConnectionState

namespace MarketDataState

def levels (st : MarketDataState) (x : Nat) (s : Side) : List L2Level :=
  (st.books x).elim [] fun sh => sh.levels s

/-- The ladders a client has, once it takes what is queued. -/
def ShownTo (st : MarketDataState) (depth : Nat) (received : List MdFrame) (c : Nat)
    (conn : ConnectionState) : Prop :=
  ∀ x < st.maxSymbols, st.subs.hasDepth c x = true →
    Sees depth (st.levels x) (fold x (received ++ conn.outbound))

def BooksValid (st : MarketDataState) : Prop :=
  ∀ x, ∀ sh ∈ st.books x, sh.Valid ∧ sh.symbolId = x

/-- No other symbol that the client follows has a frame in the queue. -/
def Spared (st : MarketDataState) (c x : Nat) (conn : ConnectionState) : Prop :=
  ∀ frame ∈ conn.outbound, ∀ x' ∈ frameSymbol frame, st.subs.hasDepth c x' = true → x' = x
  deriving Decidable

section Snapshot

variable {st : MarketDataState} {x x' depth maxOutbound c : Nat} {snapshot : L2Snapshot}
  {received : List MdFrame} {conn : ConnectionState} {frame : MdFrame}

theorem sorted_levels (st : MarketDataState) (x : Nat) (s : Side) :
    Ladder.Sorted (levelKey s) (st.levels x s) := by
  unfold levels
  cases st.books x with
  | none => exact List.Pairwise.nil
  | some sh => exact sh.sorted_levels s

theorem BooksValid.snapshotMsg (hv : st.BooksValid) (h : st.snapshotMsg x depth = some snapshot) :
    snapshot.symbolId = x ∧ snapshot.bids = (st.levels x .buy).take depth ∧
      snapshot.asks = (st.levels x .sell).take depth := by
  unfold MarketDataState.snapshotMsg at h
  split_ifs at h
  unfold levels
  cases hbook : st.books x with
  | none =>
    rw [hbook] at h
    cases h
    exact ⟨rfl, take_nil.symm, take_nil.symm⟩
  | some sh =>
    rw [hbook] at h
    cases h
    obtain ⟨hvalid, hsymbol⟩ := hv x sh hbook
    obtain ⟨_, _, hk⟩ := hvalid.kept
    exact ⟨hsymbol, collectLevels_eq hk.queued hvalid.total .buy depth,
      collectLevels_eq hk.queued hvalid.total .sell depth⟩

theorem exists_snapshotMsg (hx : x < st.maxSymbols) (depth : Nat) :
    ∃ snapshot, st.snapshotMsg x depth = some snapshot := by
  unfold MarketDataState.snapshotMsg
  rw [if_pos hx]
  cases st.books x with
  | none | some => exact ⟨_, rfl⟩

theorem BooksValid.sees_snapshot (hv : st.BooksValid) (h : st.snapshotMsg x depth = some snapshot)
    (frames : List MdFrame) :
    Sees depth (st.levels x) (fold x (frames ++ [.snapshot snapshot])) := by
  obtain ⟨hsymbol, hbids, hasks⟩ := hv.snapshotMsg h
  rw [fold_append]
  show Sees _ _ (if snapshot.symbolId = x then _ else _)
  rw [if_pos hsymbol]
  exact ClientBook.sees_snapshot (st.sorted_levels x) hbids hasks

section

variable (h : st.ShownTo depth received c conn)
include h

theorem ShownTo.push (hframe : frameSymbol frame = none) :
    st.ShownTo depth received c (conn.push frame) := by
  intro x hx hdepth
  show Sees _ _ (fold x (received ++ (conn.outbound ++ [frame])))
  rw [← append_assoc, fold_append_of_ne]
  · exact h x hx hdepth
  · intro frame' hframe'
    rw [mem_singleton.1 hframe', hframe]
    exact some_ne_none x |>.symm

theorem ShownTo.offer (hframe : frameSymbol frame = none)
    (maxOutbound : Nat) : st.ShownTo depth received c (conn.offer maxOutbound frame) := by
  unfold ConnectionState.offer
  split_ifs
  · exact h
  · exact h.push hframe

theorem ShownTo.offer_snapshot (hv : st.BooksValid)
    (hsnapshot : st.snapshotMsg x depth = some snapshot) (maxOutbound : Nat) :
    st.ShownTo depth received c (conn.offer maxOutbound (.snapshot snapshot)) := by
  unfold ConnectionState.offer
  split_ifs
  · exact h
  · intro x' hx' hdepth
    show Sees _ _ (fold x' (received ++ (conn.outbound ++ [_])))
    rw [← append_assoc]
    by_cases hxx : x' = x
    · subst hxx
      exact hv.sees_snapshot hsnapshot _
    · rw [fold_append_of_ne]
      · exact h x' hx' hdepth
      · intro frame hframe
        rw [mem_singleton.1 hframe]
        show some snapshot.symbolId ≠ some x'
        rw [(hv.snapshotMsg hsnapshot).1]
        exact fun heq => hxx (Option.some.inj heq).symm

end

/-- **A snapshot in the place of the queue.**  The ladder of its symbol need not have been
tracked. -/
theorem shownTo_refresh (hv : st.BooksValid) (hmax : 0 < maxOutbound) (hspared : st.Spared c x conn)
    (hothers : ∀ x' < st.maxSymbols, x' ≠ x → st.subs.hasDepth c x' = true →
      Sees depth (st.levels x') (fold x' (received ++ conn.outbound))) :
    st.ShownTo depth received c (conn.refresh maxOutbound (st.snapshotMsg x depth)) := by
  intro x' hx' hdepth
  -- What another symbol has in the queue is nothing.
  have hcleared : x' ≠ x → Sees depth (st.levels x') (fold x' received) := by
    intro hne
    have hsees := hothers x' hx' hne hdepth
    rwa [fold_append_of_ne] at hsees
    intro frame hframe hsymbol
    exact hne (hspared frame hframe x' hsymbol hdepth)
  cases hsnapshot : st.snapshotMsg x depth with
  | none =>
    show Sees _ _ (fold x' (received ++ []))
    rw [append_nil]
    refine hcleared ?_
    rintro rfl
    obtain ⟨snapshot, hsome⟩ := exists_snapshotMsg hx' depth
    rw [hsnapshot] at hsome
    cases hsome
  | some snapshot =>
    have hqueue : (conn.refresh maxOutbound (some snapshot)).outbound = [.snapshot snapshot] := by
      show (if maxOutbound ≤ 0 then _ else _ : ConnectionState).outbound = _
      rw [if_neg hmax.not_ge]
      rfl
    rw [hqueue]
    by_cases hxx : x' = x
    · subst hxx
      exact hv.sees_snapshot hsnapshot _
    · rw [fold_append_of_ne]
      · exact hcleared hxx
      · intro frame hframe
        rw [mem_singleton.1 hframe]
        show some snapshot.symbolId ≠ some x'
        rw [(hv.snapshotMsg hsnapshot).1]
        exact fun heq => hxx (some.inj heq).symm

end Snapshot

/-! ## A record -/

/-- Nothing of another symbol is in the queue, or it has room for `k` more frames. -/
def Safe (st : MarketDataState) (maxOutbound c x k : Nat) (conn : ConnectionState) : Prop :=
  st.Spared c x conn ∨ conn.outbound.length + k ≤ maxOutbound
  deriving Decidable

section Safe

variable {st : MarketDataState} {x depth maxOutbound c k : Nat} {snapshot : Option L2Snapshot}
  {received : List MdFrame} {conn : ConnectionState} {frame : MdFrame}

theorem Spared.push (h : st.Spared c x conn) (hframe : ∀ x' ∈ frameSymbol frame, x' = x) :
    st.Spared c x (conn.push frame) := by
  intro frame' hmem x' hx' hdepth
  rcases mem_append.1 hmem with hmem | hmem
  · exact h frame' hmem x' hx' hdepth
  · rw [mem_singleton.1 hmem] at hx'
    exact hframe x' hx'

theorem spared_refresh (conn : ConnectionState) (hsnapshot : ∀ s ∈ snapshot, s.symbolId = x) :
    st.Spared c x (conn.refresh maxOutbound snapshot) := by
  have hcleared : st.Spared c x conn.clear := fun frame hmem => absurd hmem not_mem_nil
  cases snapshot with
  | none => exact hcleared
  | some s =>
    show st.Spared c x (conn.clear.offer maxOutbound _)
    unfold offer
    split_ifs
    · exact hcleared
    · refine hcleared.push ?_
      rintro x' ⟨⟩
      exact hsnapshot s rfl

theorem Safe.spared (h : st.Safe maxOutbound c x (k + 1) conn)
    (hfull : maxOutbound ≤ conn.outbound.length) : st.Spared c x conn := by
  rcases h with h | h
  · exact h
  · omega

theorem Safe.push (h : st.Safe maxOutbound c x (k + 1) conn)
    (hframe : ∀ x' ∈ frameSymbol frame, x' = x) : st.Safe maxOutbound c x k (conn.push frame) := by
  rcases h with h | h
  · exact .inl (h.push hframe)
  · refine .inr ?_
    show (conn.outbound ++ [frame]).length + k ≤ maxOutbound
    rw [length_append, length_singleton]
    omega

theorem Safe.mono {k' : Nat} (h : st.Safe maxOutbound c x k conn) (hle : k' ≤ k) :
    st.Safe maxOutbound c x k' conn :=
  h.imp_right fun hroom => by omega

theorem Safe.offer (h : st.Safe maxOutbound c x (k + 1) conn)
    (hframe : ∀ x' ∈ frameSymbol frame, x' = x) :
    st.Safe maxOutbound c x k (conn.offer maxOutbound frame) := by
  unfold ConnectionState.offer
  split_ifs
  · exact h.mono (Nat.le_succ k)
  · exact h.push hframe

theorem Safe.offerOr (h : st.Safe maxOutbound c x (k + 1) conn)
    (hframe : ∀ x' ∈ frameSymbol frame, x' = x) (hsnapshot : ∀ s ∈ snapshot, s.symbolId = x) :
    st.Safe maxOutbound c x k (conn.offerOr maxOutbound frame snapshot) := by
  unfold ConnectionState.offerOr
  split_ifs
  · exact .inl (spared_refresh conn hsnapshot)
  · exact h.push hframe

end Safe

def frames (st : MarketDataState) (c x : Nat) (bbo : Option BboUpdate) (trade : Option TradeEvent) :
    Nat :=
  (st.subs.hasDepth c x).toNat + (bbo.isSome && st.subs.hasBbo c x).toNat +
    (trade.isSome && st.subs.hasTrades c x).toNat

def brings (st : MarketDataState) (c x : Nat) (r : Matching.Record) : Nat :=
  match (st.bookFor x r).bind fun sh => sh.applyRecord r with
  | some (sh', some _) => st.frames c x (st.bboFor x sh') (tradeFor sh' r)
  | _ => 0

section Served

variable {st : MarketDataState} {x depth maxOutbound c k : Nat} {received : List MdFrame}
  {conn : ConnectionState} {delta : L2Delta} {bbo : Option BboUpdate} {trade : Option TradeEvent}

theorem shownTo_delta (hv : st.BooksValid) (hmax : 0 < maxOutbound)
    (hdepth : st.subs.hasDepth c x = true → st.subs.clientDepth c = depth)
    (hsafe : st.Safe maxOutbound c x ((st.subs.hasDepth c x).toNat + k) conn)
    (hsymbol : delta.symbolId = x)
    (hothers : ∀ x' < st.maxSymbols, x' ≠ x → st.subs.hasDepth c x' = true →
      Sees depth (st.levels x') (fold x' (received ++ conn.outbound)))
    (hdelta : x < st.maxSymbols → st.subs.hasDepth c x = true →
      Sees depth (st.levels x) ((fold x (received ++ conn.outbound)).applyDelta delta)) :
    st.ShownTo depth received c (if st.subs.hasDepth c x then
        conn.offerOr maxOutbound (.delta delta) (st.snapshotMsg x (st.subs.clientDepth c))
      else conn) ∧
    st.Safe maxOutbound c x k (if st.subs.hasDepth c x then
        conn.offerOr maxOutbound (.delta delta) (st.snapshotMsg x (st.subs.clientDepth c))
      else conn) := by
  by_cases hhas : st.subs.hasDepth c x = true
  · rw [if_pos hhas, hdepth hhas]
    rw [hhas, Nat.add_comm] at hsafe
    have hframe : ∀ x' ∈ frameSymbol (.delta delta), x' = x := by
      rintro x' ⟨⟩
      exact hsymbol
    refine ⟨?_, hsafe.offerOr hframe fun s hs => (hv.snapshotMsg hs).1⟩
    unfold offerOr
    split_ifs with hfull
    · exact shownTo_refresh hv hmax (hsafe.spared hfull) hothers
    · intro x' hx' hdepth'
      show Sees _ _ (fold x' (received ++ (conn.outbound ++ [_])))
      rw [← append_assoc]
      by_cases hxx : x' = x
      · subst hxx
        rw [fold_append]
        show Sees _ _ (if delta.symbolId = x' then _ else _)
        rw [if_pos hsymbol]
        exact hdelta hx' hhas
      · rw [fold_append_of_ne]
        · exact hothers x' hx' hxx hdepth'
        · intro frame hmem hframe'
          rw [mem_singleton.1 hmem] at hframe'
          exact hxx (hframe x' hframe')
  · rw [if_neg hhas]
    refine ⟨fun x' hx' hdepth' => hothers x' hx' ?_ hdepth', ?_⟩
    · rintro rfl
      exact hhas hdepth'
    · rw [Bool.eq_false_iff.2 hhas, Bool.toNat_false, Nat.zero_add] at hsafe
      exact hsafe

/-- **An update and a trade.** -/
theorem shownTo_served (hv : st.BooksValid) (hmax : 0 < maxOutbound)
    (hdepth : st.subs.hasDepth c x = true ∨ c ∈ st.subs.clientsForSymbol x →
      st.subs.clientDepth c = depth)
    (hmem : c ∈ st.subs.clientsForSymbol x)
    (hsafe : st.Safe maxOutbound c x (st.frames c x bbo trade) conn) (hsymbol : delta.symbolId = x)
    (hothers : ∀ x' < st.maxSymbols, x' ≠ x → st.subs.hasDepth c x' = true →
      Sees depth (st.levels x') (fold x' (received ++ conn.outbound)))
    (hdelta : x < st.maxSymbols → st.subs.hasDepth c x = true →
      Sees depth (st.levels x) ((fold x (received ++ conn.outbound)).applyDelta delta)) :
    st.ShownTo depth received c (st.served x delta bbo trade maxOutbound c conn) := by
  unfold frames at hsafe
  rw [Nat.add_assoc] at hsafe
  obtain ⟨hshown₁, hsafe₁⟩ := shownTo_delta hv hmax (fun h => hdepth (.inl h)) hsafe hsymbol hothers
    hdelta
  have hquiet : ∀ {frame : MdFrame}, frameSymbol frame = none →
      ∀ x' ∈ frameSymbol frame, x' = x := by
    intro frame hnone x' hx'
    rw [hnone] at hx'
    cases hx'
  -- The best prices.
  obtain ⟨hshown₂, hsafe₂⟩ :
      st.ShownTo depth received c (st.notify x delta bbo maxOutbound c conn) ∧
        st.Safe maxOutbound c x (trade.isSome && st.subs.hasTrades c x).toNat
          (st.notify x delta bbo maxOutbound c conn) := by
    unfold notify
    cases bbo with
    | none => exact ⟨hshown₁, hsafe₁.mono (Nat.le_add_left ..)⟩
    | some =>
      dsimp only
      by_cases hbbo : st.subs.hasBbo c x = true
      · rw [if_pos hbbo]
        rw [hbbo, Nat.add_comm] at hsafe₁
        exact ⟨hshown₁.offer rfl _, hsafe₁.offer (hquiet rfl)⟩
      · rw [if_neg hbbo]
        exact ⟨hshown₁, hsafe₁.mono (Nat.le_add_left ..)⟩
  cases trade with
  | none => exact hshown₂
  | some trade =>
    show st.ShownTo depth received c (st.report x trade maxOutbound c _)
    unfold report
    split_ifs with htrades
    · rw [htrades] at hsafe₂
      rw [hdepth (.inr hmem)]
      unfold offerOr
      split_ifs with hfull
      · exact shownTo_refresh hv hmax (Safe.spared (k := 0) hsafe₂ hfull)
          fun x' hx' _ hdepth' => hshown₂ x' hx' hdepth'
      · exact hshown₂.push rfl
    · exact hshown₂

end Served

section Books

variable {st st' : MarketDataState} {x x' depth c : Nat} {r : Matching.Record} {sh sh' : ShadowBook}
  {received : List MdFrame} {conn conn' : ConnectionState}

theorem levels_of_some (h : st.books x = some sh) : st.levels x = sh.levels := by
  unfold levels
  rw [h]
  rfl

theorem levels_congr (h : st'.books x = st.books x) : st'.levels x = st.levels x := by
  unfold levels
  rw [h]

theorem levels_opened (hcap : st.bookCapacity ≤ NONE) (price : Int) (s : Side) :
    (st.opened x price).levels s = [] := by
  have hq : Orderbook.Queued (st.opened x price).book (fun _ => []) [] := Orderbook.queued_new hcap
  have hnone : (st.opened x price).book.held = fun _ => none := rfl
  have hquotes : quotes (st.opened x price).book = [] := by
    have hperm := quotes_perm_quotesOf hq
    have hempty : quotesOf (st.opened x price).book.orders.capacity (fun _ => none) = [] :=
      filterMap_eq_nil_iff.2 fun _ _ => rfl
    rw [hnone, hempty] at hperm
    exact hperm.eq_nil
  unfold ShadowBook.levels
  rw [hquotes]
  rfl

theorem BooksValid.bookFor (hv : st.BooksValid) (hcap : st.bookCapacity ≤ NONE)
    (h : st.bookFor x r = some sh) :
    sh.Valid ∧ sh.symbolId = x ∧ st.levels x = sh.levels := by
  have hold : st.books x = some sh → sh.Valid ∧ sh.symbolId = x ∧ st.levels x = sh.levels :=
    fun hbook => ⟨(hv x sh hbook).1, (hv x sh hbook).2, levels_of_some hbook⟩
  cases r with
  | orderInserted tsNs userId orderIdHi orderIdLo price =>
    have h : (st.ensureBook 0 x price).books x = some sh := h
    unfold ensureBook at h
    by_cases hx : x < st.maxSymbols
    · rw [if_pos hx] at h
      cases hbook : st.books x with
      | some =>
        simp only [hbook] at h
        exact hold (hbook.trans h)
      | none =>
        simp only [hbook, update_self] at h
        obtain rfl : st.opened x price = sh := some.inj h
        refine ⟨valid_new _ _ _ hcap, rfl, funext fun s => ?_⟩
        rw [levels_opened hcap]
        unfold levels
        rw [hbook]
        rfl
    · rw [if_neg hx] at h
      exact hold h
  | _ => exact hold h

theorem BooksValid.setBook (hv : st.BooksValid) (hvalid : sh'.Valid) (hsymbol : sh'.symbolId = x)
    (hbooks : st'.books = update st.books x (some sh')) : st'.BooksValid := by
  intro x' sh hsh
  rw [hbooks] at hsh
  by_cases hx : x' = x
  · subst hx
    rw [update_self] at hsh
    cases hsh
    exact ⟨hvalid, hsymbol⟩
  · rw [update_of_ne hx] at hsh
    exact hv x' sh hsh

theorem ShownTo.congr (h : st.ShownTo depth received c conn) (hmax : st'.maxSymbols = st.maxSymbols)
    (hsubs : ∀ x, st'.subs.hasDepth c x = true →
      st.subs.hasDepth c x = true ∧ st'.levels x = st.levels x)
    (hqueue : conn'.outbound = conn.outbound) : st'.ShownTo depth received c conn' := by
  intro x hx hdepth
  obtain ⟨hdepth, hlevels⟩ := hsubs x hdepth
  rw [hlevels, hqueue]
  exact h x (hmax ▸ hx) hdepth

end Books

end MarketDataState

end Rsx.Marketdata
