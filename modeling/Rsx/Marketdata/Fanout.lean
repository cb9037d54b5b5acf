import Rsx.Marketdata.Client

/-!
# Frames for the clients

What the loops of `state.rs` and `apply.rs` do to one connection: each of them visits a client once,
and a visit changes the queue of that client only.  -/

namespace Rsx.Marketdata

open Function Book Option

/-! ## Queues -/

namespace ConnectionState

def push (frame : MdFrame) (conn : ConnectionState) : ConnectionState :=
  { conn with outbound := conn.outbound ++ [frame] }

def offer (maxOutbound : Nat) (frame : MdFrame) (conn : ConnectionState) : ConnectionState :=
  if maxOutbound ≤ conn.outbound.length then conn else conn.push frame

def clear (conn : ConnectionState) : ConnectionState :=
  { conn with outbound := [] }

def refresh (maxOutbound : Nat) (snapshot : Option L2Snapshot) (conn : ConnectionState) :
    ConnectionState :=
  match snapshot with
  | some snapshot => conn.clear.offer maxOutbound (.snapshot snapshot)
  | none => conn.clear

def offerOr (maxOutbound : Nat) (frame : MdFrame) (snapshot : Option L2Snapshot)
    (conn : ConnectionState) : ConnectionState :=
  if maxOutbound ≤ conn.outbound.length then conn.refresh maxOutbound snapshot else conn.push frame

end ConnectionState

namespace MarketDataState

open ConnectionState

variable (st : MarketDataState) {st' : MarketDataState}
  {clientId symbolId depth maxOutbound now : Nat} {frame : MdFrame}
  {f : ConnectionState → ConnectionState} {conn : ConnectionState} {access : Nat → Nat}

def withConnections (connections : Nat → Option ConnectionState) : MarketDataState where
  __ := st
  connections := connections

def onConnection (clientId : Nat) (f : ConnectionState → ConnectionState) : MarketDataState :=
  st.withConnections
    (update st.connections clientId ((st.connections clientId).map f))

theorem onConnection_of_none (f : ConnectionState → ConnectionState)
    (hnone : st.connections clientId = none) : st.onConnection clientId f = st := by
  unfold onConnection
  rw [hnone, map_none, ← hnone, update_eq_self]
  rfl

theorem onConnection_of_eq (hconn : st.connections clientId = some conn) (hsame : f conn = conn) :
    st.onConnection clientId f = st := by
  unfold onConnection
  rw [hconn, map_some, hsame, ← hconn, update_eq_self]
  rfl

theorem onConnection_congr {g : ConnectionState → ConnectionState}
    (hconn : st.connections clientId = some conn) (hsame : f conn = g conn) :
    st.onConnection clientId f = st.onConnection clientId g := by
  unfold onConnection
  rw [hconn, map_some, map_some, hsame]

theorem onConnection_comp (f g : ConnectionState → ConnectionState) :
    (st.onConnection clientId f).onConnection clientId g = st.onConnection clientId (g ∘ f) := by
  unfold onConnection withConnections
  simp only [update_self, update_idem, map_map]

theorem pushToClient_eq (clientId : Nat) (frame : MdFrame) (maxOutbound : Nat) :
    (st.pushToClient clientId frame maxOutbound).1 =
      st.onConnection clientId (offer maxOutbound frame) := by
  unfold pushToClient
  cases hconn : st.connections clientId with
  | none => exact (st.onConnection_of_none _ hconn).symm
  | some conn =>
    by_cases hfull : maxOutbound ≤ conn.outbound.length
    · simp only [if_pos hfull]
      exact (st.onConnection_of_eq (f := offer maxOutbound frame) hconn (if_pos hfull)).symm
    · simp only [if_neg hfull]
      unfold onConnection offer
      rw [hconn, map_some, if_neg hfull]
      rfl

theorem sendSnapshotToClient_eq (clientId symbolId depth maxOutbound : Nat) :
    st.sendSnapshotToClient clientId symbolId depth maxOutbound =
      st.onConnection clientId (refresh maxOutbound (st.snapshotMsg symbolId depth)) := by
  have hclear : st.sendSnapshotToClient clientId symbolId depth maxOutbound =
      match st.snapshotMsg symbolId depth with
      | some snapshot =>
        ((st.onConnection clientId clear).pushToClient clientId (.snapshot snapshot) maxOutbound).1
      | none => st.onConnection clientId clear := rfl
  rw [hclear]
  cases st.snapshotMsg symbolId depth with
  | none => rfl
  | some =>
    dsimp only
    rw [pushToClient_eq, onConnection_comp]
    rfl

theorem pushOrSnapshot_eq (clientId symbolId : Nat) (frame : MdFrame) (maxOutbound : Nat) :
    st.pushOrSnapshot clientId symbolId frame maxOutbound =
      st.onConnection clientId (offerOr maxOutbound frame
        (st.snapshotMsg symbolId (st.subs.clientDepth clientId))) := by
  unfold pushOrSnapshot pushToClient
  cases hconn : st.connections clientId with
  | none =>
    dsimp only
    rw [sendSnapshotToClient_eq, st.onConnection_of_none _ hconn, st.onConnection_of_none _ hconn]
  | some conn =>
    by_cases hfull : maxOutbound ≤ conn.outbound.length
    · simp only [if_pos hfull]
      rw [sendSnapshotToClient_eq]
      exact st.onConnection_congr hconn (if_pos hfull).symm
    · simp only [if_neg hfull]
      unfold onConnection offerOr
      rw [hconn, map_some, if_neg hfull]
      rfl

theorem foldl_onConnection {step : MarketDataState → Nat → MarketDataState}
    {f : Nat → ConnectionState → ConnectionState}
    (hstep : ∀ connections clientId, step (st.withConnections connections) clientId =
      (st.withConnections connections).onConnection clientId (f clientId))
    {clients : List Nat} (hnodup : clients.Nodup) (connections : Nat → Option ConnectionState) :
    clients.foldl step (st.withConnections connections) = st.withConnections fun clientId =>
        if clientId ∈ clients then (connections clientId).map (f clientId)
        else connections clientId := by
  induction clients generalizing connections with
  | nil => simp only [List.foldl_nil, List.not_mem_nil, if_false]
  | cons c clients ih =>
    obtain ⟨hc, hrest⟩ := List.nodup_cons.1 hnodup
    rw [List.foldl_cons, hstep]
    have hvisit : (st.withConnections connections).onConnection c (f c) =
        st.withConnections (update connections c ((connections c).map (f c))) := rfl
    rw [hvisit, ih hrest]
    refine congrArg st.withConnections (funext fun clientId => ?_)
    rcases eq_or_ne clientId c with rfl | hne
    · rw [if_neg hc, if_pos (List.mem_cons_self ..), update_self]
    · have hmem : clientId ∈ c :: clients ↔ clientId ∈ clients := by
        rw [List.mem_cons, or_iff_right hne]
      simp only [hmem, update_of_ne hne]

def notify (symbolId : Nat) (delta : L2Delta) (bbo : Option BboUpdate) (maxOutbound clientId : Nat)
    (conn : ConnectionState) : ConnectionState :=
  let conn :=
    if st.subs.hasDepth clientId symbolId then
      conn.offerOr maxOutbound (.delta delta)
        (st.snapshotMsg symbolId (st.subs.clientDepth clientId))
    else conn
  match bbo with
  | some update =>
    if st.subs.hasBbo clientId symbolId then conn.offer maxOutbound (.bbo update) else conn
  | none => conn

theorem sendUpdates_eq (symbolId : Nat) (delta : L2Delta) (bbo : Option BboUpdate)
    (maxOutbound clientId : Nat) :
    st.sendUpdates symbolId delta bbo maxOutbound clientId =
      st.onConnection clientId (st.notify symbolId delta bbo maxOutbound clientId) := by
  have hid : st.onConnection clientId id = st := by
    unfold onConnection
    rw [map_id, id_eq, update_eq_self]
    rfl
  have hdepth : (if st.subs.hasDepth clientId symbolId then
      st.pushOrSnapshot clientId symbolId (.delta delta) maxOutbound else st) =
        st.onConnection clientId fun conn =>
          if st.subs.hasDepth clientId symbolId then
            conn.offerOr maxOutbound (.delta delta)
              (st.snapshotMsg symbolId (st.subs.clientDepth clientId))
          else conn := by
    split_ifs
    · exact st.pushOrSnapshot_eq ..
    · exact hid.symm
  unfold sendUpdates
  rw [hdepth]
  cases bbo with
  | none => rfl
  | some =>
    have hsubs : ∀ f, (st.onConnection clientId f).subs = st.subs := fun _ => rfl
    dsimp only
    rw [hsubs, pushToClient_eq, onConnection_comp]
    unfold notify
    by_cases hbbo : st.subs.hasBbo clientId symbolId = true
    · simp only [if_pos hbbo]
      rfl
    · simp only [if_neg hbbo]

def report (symbolId : Nat) (trade : TradeEvent) (maxOutbound clientId : Nat)
    (conn : ConnectionState) : ConnectionState :=
  if st.subs.hasTrades clientId symbolId then
    conn.offerOr maxOutbound (.trade trade)
      (st.snapshotMsg symbolId (st.subs.clientDepth clientId))
  else conn

theorem broadcastTrade_eq {symbolId : Nat} (hnodup : (st.subs.clientsForSymbol symbolId).Nodup)
    (trade : TradeEvent) (maxOutbound : Nat) :
    st.broadcastTrade symbolId trade maxOutbound = st.withConnections fun clientId =>
        if clientId ∈ st.subs.clientsForSymbol symbolId then
          (st.connections clientId).map (st.report symbolId trade maxOutbound clientId)
        else st.connections clientId := by
  refine st.foldl_onConnection (fun connections clientId => ?_) hnodup st.connections
  show (if st.subs.hasTrades clientId symbolId = true then _ else _) = _
  by_cases htrades : st.subs.hasTrades clientId symbolId = true
  · rw [if_pos htrades, pushOrSnapshot_eq]
    refine congrArg _ (funext fun conn => ?_)
    exact (if_pos htrades).symm
  · rw [if_neg htrades]
    have hid : st.report symbolId trade maxOutbound clientId = id :=
      funext fun conn => if_neg htrades
    rw [hid]
    unfold onConnection
    rw [map_id, id_eq, update_eq_self]
    rfl

/-! ## Records -/

structure SameSetup (st st' : MarketDataState) : Prop where
  maxSymbols : st'.maxSymbols = st.maxSymbols
  baseConfig : st'.baseConfig = st.baseConfig
  bookCapacity : st'.bookCapacity = st.bookCapacity
  midPriceDefault : st'.midPriceDefault = st.midPriceDefault
  nextConnId : st'.nextConnId = st.nextConnId
  subs : st'.subs = st.subs

theorem SameSetup.refl (st : MarketDataState) : SameSetup st st :=
  ⟨rfl, rfl, rfl, rfl, rfl, rfl⟩

theorem SameSetup.trans {st st₁ st₂ : MarketDataState} (h : SameSetup st st₁)
    (h' : SameSetup st₁ st₂) : SameSetup st st₂ :=
  ⟨h'.1.trans h.1, h'.2.trans h.2, h'.3.trans h.3, h'.4.trans h.4, h'.5.trans h.5, h'.6.trans h.6⟩

/-- The queues after an update of a symbol, and a trade of it. -/
def served (symbolId : Nat) (delta : L2Delta) (bbo : Option BboUpdate) (trade : Option TradeEvent)
    (maxOutbound clientId : Nat) (conn : ConnectionState) : ConnectionState :=
  let conn := st.notify symbolId delta bbo maxOutbound clientId conn
  match trade with
  | some trade => st.report symbolId trade maxOutbound clientId conn
  | none => conn

def bboFor (symbolId : Nat) (book : ShadowBook) : Option BboUpdate :=
  book.deriveBbo.elim none fun bbo => (st.noteBbo symbolId bbo).2

theorem noteBbo_snd_congr (h : st'.lastBbo = st.lastBbo) (symbolId : Nat)
    (bbo : Option BboUpdate) : (st'.noteBbo symbolId bbo).2 = (st.noteBbo symbolId bbo).2 := by
  cases bbo with
  | none => rfl
  | some =>
    unfold noteBbo
    simp only [h]
    split_ifs <;> rfl

theorem noteBbo_fst (symbolId : Nat) (bbo : Option BboUpdate) :
    ∃ lastBbo, (st.noteBbo symbolId bbo).1 = { st with lastBbo := lastBbo } := by
  cases bbo with
  | none => exact ⟨st.lastBbo, rfl⟩
  | some =>
    unfold noteBbo
    dsimp only
    split_ifs
    · exact ⟨st.lastBbo, rfl⟩
    · exact ⟨_, rfl⟩

theorem bboFor_congr (st' : MarketDataState) (h : st'.lastBbo = st.lastBbo) (symbolId : Nat)
    (book : ShadowBook) : st'.bboFor symbolId book = st.bboFor symbolId book := by
  refine congrArg (book.deriveBbo.elim none) (funext fun bbo => ?_)
  exact st.noteBbo_snd_congr h symbolId bbo

structure Broadcast (symbolId : Nat) (side : Side) (price : Int) (trade : Option TradeEvent)
    (maxOutbound : Nat) (book : ShadowBook) (st' : MarketDataState) : Prop where
  setup : SameSetup st st'
  books : st'.books = st.books
  connections : ∃ delta, book.deriveL2Delta side price = some delta ∧
    st'.connections = fun clientId =>
      if clientId ∈ st.subs.clientsForSymbol symbolId then
        (st.connections clientId).map (st.served symbolId delta (st.bboFor symbolId book) trade
          maxOutbound clientId)
      else st.connections clientId

variable {st}

theorem broadcastUpdates_spec {side : Side} {price : Int} {book : ShadowBook}
    (hlt : symbolId < st.maxSymbols) (hbook : st.books symbolId = some book)
    (hnodup : (st.subs.clientsForSymbol symbolId).Nodup)
    (hrun : st.broadcastUpdates now symbolId side price maxOutbound = some st') :
    st.Broadcast symbolId side price none maxOutbound book st' := by
  unfold broadcastUpdates bookMut at hrun
  simp only [if_pos hlt, hbook] at hrun
  obtain ⟨delta, hdelta, hrun⟩ := bind_eq_some_iff.1 hrun
  obtain ⟨bbo, hbbo, hrun⟩ := bind_eq_some_iff.1 hrun
  set st₁ := { st with lastBookAccess := update st.lastBookAccess symbolId now }
  have hbboFor : st₁.bboFor symbolId book = (st₁.noteBbo symbolId bbo).2 := by
    unfold bboFor
    rw [hbbo]
    rfl
  obtain ⟨lastBbo, hnote⟩ := st₁.noteBbo_fst symbolId bbo
  have hpair : st₁.noteBbo symbolId bbo =
      ({ st₁ with lastBbo := lastBbo }, st.bboFor symbolId book) :=
    Prod.ext hnote (hbboFor.symm.trans (st.bboFor_congr st₁ rfl symbolId book))
  rw [hpair] at hrun
  set bbo' := st.bboFor symbolId book
  set st₂ : MarketDataState := { st₁ with lastBbo := lastBbo }
  have hrun : (st₂.subs.clientsForSymbol symbolId).foldl
      (fun st clientId => st.sendUpdates symbolId delta bbo' maxOutbound clientId) st₂ = st' :=
    some.inj hrun
  have hloop : (st₂.subs.clientsForSymbol symbolId).foldl
      (fun st clientId => st.sendUpdates symbolId delta bbo' maxOutbound clientId) st₂ =
        st₂.withConnections fun clientId =>
          if clientId ∈ st.subs.clientsForSymbol symbolId then
            (st.connections clientId).map (st₂.notify symbolId delta bbo' maxOutbound clientId)
          else st.connections clientId :=
    st₂.foldl_onConnection (fun connections clientId =>
      (st₂.withConnections connections).sendUpdates_eq symbolId delta bbo' maxOutbound clientId)
      hnodup st.connections
  obtain rfl := hrun.symm.trans hloop
  exact ⟨⟨rfl, rfl, rfl, rfl, rfl, rfl⟩, rfl, delta, hdelta, rfl⟩

def bookFor (st : MarketDataState) (symbolId : Nat) : Matching.Record → Option ShadowBook
  | .orderInserted _ _ _ _ price _ _ _ _ => (st.ensureBook 0 symbolId price).books symbolId
  | _ => st.books symbolId

def tradeFor (book : ShadowBook) : Matching.Record → Option TradeEvent
  | .fill rec => some (book.makeTrade rec.price rec.qty rec.takerSide rec.tsNs)
  | _ => none

structure Passes (st : MarketDataState) (symbolId : Nat) (r : Matching.Record)
    (st' : MarketDataState) : Prop where
  books : st'.books = st.books
  connections : st'.connections = st.connections
  ignored : symbolId < st.maxSymbols →
    match r with
    | .orderInserted .. => False
    | .orderCancelled .. => st.books symbolId = none
    | .fill _ => st.books symbolId = none
    | _ => True

structure Takes (st : MarketDataState) (symbolId : Nat) (r : Matching.Record) (maxOutbound : Nat)
    (sh sh' : ShadowBook) (update : Option (Side × Int)) (st' : MarketDataState) : Prop where
  lt : symbolId < st.maxSymbols
  before : st.bookFor symbolId r = some sh
  applied : sh.applyRecord r = some (sh', update)
  books : st'.books = Function.update st.books symbolId (some sh')
  quiet : update = none → st'.connections = st.connections
  sent : ∀ place ∈ update, ∃ delta, sh'.deriveL2Delta place.1 place.2 = some delta ∧
    st'.connections = fun clientId =>
      if clientId ∈ st.subs.clientsForSymbol symbolId then
        (st.connections clientId).map
          ((st.setBook symbolId sh').served symbolId delta (st.bboFor symbolId sh')
            (tradeFor sh' r) maxOutbound clientId)
      else st.connections clientId

variable {sh sh' : ShadowBook} {side : Side} {price : Int} {r : Matching.Record}

theorem snapshotMsg_congr (hmax : st'.maxSymbols = st.maxSymbols) (hbooks : st'.books = st.books)
    (symbolId depth : Nat) : st'.snapshotMsg symbolId depth = st.snapshotMsg symbolId depth := by
  unfold snapshotMsg
  rw [hmax, hbooks]

theorem Broadcast.trade (h : st.Broadcast symbolId side price none maxOutbound sh' st')
    (hnodup : (st.subs.clientsForSymbol symbolId).Nodup) (trade : TradeEvent) :
    st.Broadcast symbolId side price (some trade) maxOutbound sh'
      (st'.broadcastTrade symbolId trade maxOutbound) := by
  obtain ⟨delta, hdelta, hconnections⟩ := h.connections
  have hnodup' : (st'.subs.clientsForSymbol symbolId).Nodup := by
    rw [h.setup.subs]
    exact hnodup
  have hreport : ∀ clientId, st'.report symbolId trade maxOutbound clientId =
      st.report symbolId trade maxOutbound clientId := by
    intro clientId
    unfold report
    rw [h.setup.subs, snapshotMsg_congr h.setup.maxSymbols h.books]
  rw [st'.broadcastTrade_eq hnodup']
  refine ⟨⟨h.setup.1, h.setup.2, h.setup.3, h.setup.4, h.setup.5, h.setup.6⟩, h.books, delta,
    hdelta, funext fun clientId => ?_⟩
  show (if clientId ∈ st'.subs.clientsForSymbol symbolId then _ else st'.connections clientId) = _
  rw [h.setup.subs, hreport, hconnections]
  by_cases hmem : clientId ∈ st.subs.clientsForSymbol symbolId
  · simp only [if_pos hmem, map_map]
    rfl
  · simp only [if_neg hmem]

def written (st : MarketDataState) (symbolId : Nat) (access : Nat → Nat) (sh' : ShadowBook) :
    MarketDataState where
  __ := st
  books := update st.books symbolId (some sh')
  lastBookAccess := access

section

variable (hlt : symbolId < st.maxSymbols)
include hlt

theorem written_spec (hnodup : (st.subs.clientsForSymbol symbolId).Nodup)
    (hrun : (st.written symbolId access sh').broadcastUpdates now symbolId side price maxOutbound =
      some st') :
    (st.written symbolId access sh').Broadcast symbolId side price none maxOutbound sh' st' :=
  broadcastUpdates_spec hlt (update_self ..) hnodup hrun

theorem Broadcast.takes (hbefore : st.bookFor symbolId r = some sh)
    (happlied : sh.applyRecord r = some (sh', some (side, price)))
    (hsent : (st.written symbolId access sh').Broadcast symbolId side price (tradeFor sh' r)
      maxOutbound sh' st') :
    SameSetup st st' ∧ st.Takes symbolId r maxOutbound sh sh' (some (side, price)) st' := by
  obtain ⟨hsetup, hbooks, delta, hdelta, hconnections⟩ := hsent
  refine ⟨⟨hsetup.1, hsetup.2, hsetup.3, hsetup.4, hsetup.5, hsetup.6⟩, hlt, hbefore,
    happlied, hbooks, (fun hnone => nomatch hnone), ?_⟩
  rintro place ⟨⟩
  have hbbo : (st.written symbolId access sh').bboFor symbolId sh' = st.bboFor symbolId sh' :=
    st.bboFor_congr (st.written symbolId access sh') rfl symbolId sh'
  rw [hbbo] at hconnections
  exact ⟨delta, hdelta, hconnections⟩

theorem takes_quiet (hbefore : st.bookFor symbolId r = some sh)
    (happlied : sh.applyRecord r = some (sh', none)) (access : Nat → Nat) :
    SameSetup st (st.written symbolId access sh') ∧
      st.Takes symbolId r maxOutbound sh sh' none (st.written symbolId access sh') :=
  ⟨⟨rfl, rfl, rfl, rfl, rfl, rfl⟩, hlt, hbefore, happlied, rfl, fun _ => rfl,
    fun _ hplace => nomatch hplace⟩

end

def opened (st : MarketDataState) (symbolId : Nat) (price : Int) : ShadowBook :=
  ShadowBook.new symbolId { st.baseConfig with symbolId := symbolId } st.bookCapacity
    (if 0 < price then price else st.midPriceDefault)

theorem bookMut_ensureBook (hlt : symbolId < st.maxSymbols) (now : Nat) (price : Int) :
    ∃ sh books, (∀ now, (st.ensureBook now symbolId price).books symbolId = some sh) ∧
      (st.ensureBook now symbolId price).bookMut now symbolId = ({ st with
          books := books, lastBookAccess := update st.lastBookAccess symbolId now },
          some sh) ∧
      ∀ sh', update books symbolId (some sh') = update st.books symbolId (some sh') := by
  unfold bookMut ensureBook
  simp only [if_pos hlt, update_idem]
  cases hbook : st.books symbolId with
  | some sh => exact ⟨sh, st.books, fun _ => hbook, by simp only [hbook], fun _ => rfl⟩
  | none =>
    refine ⟨st.opened symbolId price, update st.books symbolId (some (st.opened symbolId price)),
      fun _ => update_self .., ?_, fun _ => update_idem ..⟩
    simp only [update_self]
    rfl

variable (hnodup : (st.subs.clientsForSymbol symbolId).Nodup)
include hnodup

theorem applyInsert_spec {tsNs userId orderIdHi orderIdLo : Nat} {qty : Int} {reduceOnly : Bool}
    {tif : TimeInForce}
    (hrun : st.applyInsert now symbolId tsNs userId (orderIdHi, orderIdLo) price qty side
      maxOutbound = some st') :
    SameSetup st st' ∧ (st.Passes symbolId
        (.orderInserted tsNs userId orderIdHi orderIdLo price qty side reduceOnly tif) st' ∨
      ∃ sh sh' update, st.Takes symbolId
        (.orderInserted tsNs userId orderIdHi orderIdLo price qty side reduceOnly tif)
        maxOutbound sh sh' update st') := by
  unfold applyInsert at hrun
  by_cases hlt : symbolId < st.maxSymbols
  · obtain ⟨sh, _, hbefore, hmut, hbooks⟩ := bookMut_ensureBook hlt now price
    rw [hmut] at hrun
    obtain ⟨_, hinsert, hrun⟩ := bind_eq_some_iff.1 hrun
    obtain ⟨sh₂, hrecenter, hrun⟩ := bind_eq_some_iff.1 hrun
    have happlied : sh.applyRecord
        (.orderInserted tsNs userId orderIdHi orderIdLo price qty side reduceOnly tif) =
          some (sh₂, some (side, price)) := by
      unfold ShadowBook.applyRecord
      simp only [hinsert, hrecenter, bind, bind_some]
    unfold setBook at hrun
    simp only [hbooks] at hrun
    have hbefore : st.bookFor symbolId
        (.orderInserted tsNs userId orderIdHi orderIdLo price qty side reduceOnly tif) = some sh :=
      hbefore 0
    obtain ⟨hsetup, htakes⟩ := (written_spec hlt hnodup hrun).takes hlt hbefore happlied
    exact ⟨hsetup, .inr ⟨sh, sh₂, _, htakes⟩⟩
  · have hensure : st.ensureBook now symbolId price = st := if_neg hlt
    have hmut : st.bookMut now symbolId = (st, none) := if_neg hlt
    rw [hensure, hmut] at hrun
    cases hrun
    exact ⟨.refl st, .inl ⟨rfl, rfl, fun hlt' => hlt hlt'⟩⟩

theorem changed_spec {update : Option (Side × Int)} (hlt : symbolId < st.maxSymbols)
    (hbefore : st.bookFor symbolId r = some sh) (happlied : sh.applyRecord r = some (sh', update))
    (now : Nat) (access : Nat → Nat)
    (hquiet : update = none → st' = st.written symbolId access sh')
    (hsent : ∀ side price, update = some (side, price) → ∃ st₁,
      (st.written symbolId access sh').broadcastUpdates now symbolId side price maxOutbound =
        some st₁ ∧
      st' = (tradeFor sh' r).elim st₁ fun trade => st₁.broadcastTrade symbolId trade maxOutbound) :
    SameSetup st st' ∧ (st.Passes symbolId r st' ∨
      ∃ sh sh' update, st.Takes symbolId r maxOutbound sh sh' update st') := by
  cases update with
  | none =>
    obtain rfl := hquiet rfl
    obtain ⟨hsetup, htakes⟩ := takes_quiet hlt hbefore happlied access
    exact ⟨hsetup, .inr ⟨sh, sh', _, htakes⟩⟩
  | some place =>
    obtain ⟨side, price⟩ := place
    obtain ⟨st₁, hrun, rfl⟩ := hsent side price rfl
    have hspec := written_spec hlt hnodup hrun
    have hsent : (st.written symbolId access sh').Broadcast symbolId side price (tradeFor sh' r)
        maxOutbound sh' ((tradeFor sh' r).elim st₁ fun trade =>
          st₁.broadcastTrade symbolId trade maxOutbound) := by
      cases tradeFor sh' r with
      | none => exact hspec
      | some trade => exact hspec.trade hnodup trade
    obtain ⟨hsetup, htakes⟩ := hsent.takes hlt hbefore happlied
    exact ⟨hsetup, .inr ⟨sh, sh', _, htakes⟩⟩

omit hnodup in
theorem bookMut_cases (st : MarketDataState) (now symbolId : Nat) :
    (∃ st₁, st.bookMut now symbolId = (st₁, none) ∧ SameSetup st st₁ ∧ st₁.books = st.books ∧
        st₁.connections = st.connections ∧
        (symbolId < st.maxSymbols → st.books symbolId = none)) ∨
      symbolId < st.maxSymbols ∧ ∃ sh, st.books symbolId = some sh ∧ st.bookMut now symbolId =
        ({ st with lastBookAccess := update st.lastBookAccess symbolId now }, some sh) := by
  unfold bookMut
  by_cases hlt : symbolId < st.maxSymbols
  · rw [if_pos hlt]
    cases hbook : st.books symbolId with
    | none => exact .inl ⟨_, rfl, ⟨rfl, rfl, rfl, rfl, rfl, rfl⟩, rfl, rfl, fun _ => rfl⟩
    | some sh => exact .inr ⟨hlt, sh, rfl, rfl⟩
  · rw [if_neg hlt]
    exact .inl ⟨st, rfl, .refl st, rfl, rfl, fun hlt' => absurd hlt' hlt⟩

/-- **A record.**  Nothing changes, or one book takes it and its update goes to the clients. -/
theorem applyRecord_spec (hrun : st.applyRecord now symbolId r maxOutbound = some st') :
    SameSetup st st' ∧ (st.Passes symbolId r st' ∨
      ∃ sh sh' update, st.Takes symbolId r maxOutbound sh sh' update st') := by
  cases r with
  | orderInserted =>
    exact applyInsert_spec hnodup hrun
  | orderCancelled tsNs userId orderIdHi orderIdLo =>
    have hrun : st.applyCancel now symbolId tsNs (orderIdHi, orderIdLo) maxOutbound = some st' :=
      hrun
    unfold applyCancel at hrun
    rcases st.bookMut_cases now symbolId with
      ⟨_, hmut, hsetup, hbooks, hconnections, hbook⟩ | ⟨hlt, sh, hbook, hmut⟩
    · rw [hmut] at hrun
      cases hrun
      exact ⟨hsetup, .inl ⟨hbooks, hconnections, hbook⟩⟩
    · rcases hcancel : sh.applyCancelByOrderId (orderIdHi, orderIdLo) tsNs with ⟨sh', update⟩
      simp only [hmut, hcancel] at hrun
      refine changed_spec hnodup hlt hbook (congrArg some hcancel) now
        (Function.update st.lastBookAccess symbolId now) ?_ ?_
      · rintro rfl
        exact (some.inj hrun).symm
      · rintro side price rfl
        exact ⟨st', hrun, rfl⟩
  | fill rec =>
    have hrun : st.applyFill now symbolId rec maxOutbound = some st' := hrun
    unfold applyFill at hrun
    rcases st.bookMut_cases now symbolId with
      ⟨_, hmut, hsetup, hbooks, hconnections, hbook⟩ | ⟨hlt, sh, hbook, hmut⟩
    · rw [hmut] at hrun
      cases hrun
      exact ⟨hsetup, .inl ⟨hbooks, hconnections, hbook⟩⟩
    · rcases hfill : sh.applyFillByOrderId
        (rec.makerOrderIdHi, rec.makerOrderIdLo) rec.qty rec.tsNs with ⟨_, _⟩
      simp only [hmut, hfill] at hrun
      refine changed_spec hnodup hlt hbook (congrArg some hfill) now
        (Function.update st.lastBookAccess symbolId now) ?_ ?_
      · rintro rfl
        exact (some.inj hrun).symm
      · rintro side price rfl
        obtain ⟨st₁, hrun, hst⟩ := bind_eq_some_iff.1 hrun
        exact ⟨st₁, hrun, (Option.some.inj hst).symm⟩
  | _ =>
    cases hrun
    exact ⟨.refl st, .inl ⟨rfl, rfl, fun _ => trivial⟩⟩

end MarketDataState

end Rsx.Marketdata
