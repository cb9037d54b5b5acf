import Rsx.Risk.Persist
import Rsx.Risk.FillBooks

/-!
# What a record writes to the tables

A record that a running shard takes in pushes events on the ring.  The rows of positions, accounts
and tips do not depend on how the events are cut into batches, and after the rows of a fill the
tables hold the books of one more fill.  -/

namespace Rsx.Risk

open Function Book List PersistEvent

inductive Route
  | live
  | drained
  deriving DecidableEq, Repr

namespace Shard

variable {s s₀ : Shard} {fill : FillEvent} {fills : List FillEvent} {userId symbolId : Nat}
  {record : MeRecord}

def takeIn (s : Shard) : Route → MeRecord → Shard
  | .live, record => s.receive record
  | .drained, record => s.applyRecord record

/-- The events a record pushes.  A drained acceptance pushes none. -/
def eventsOf (s : Shard) (route : Route) (record : MeRecord) : List PersistEvent :=
  match record.body with
  | .fill fill =>
    let fill := fill.toFillEvent record.symbolId record.seq
    if s.Fresh fill then (s.bookFill fill).fillEvents fill else []
  | .orderDone userId orderId => s.releaseEvents userId orderId
  | .orderFailed userId orderId _ => s.releaseEvents userId orderId
  | .orderAccepted order =>
    if route = .live ∧ order.reduceOnly = false then
      s.confirmEvents order.userId order.orderId record.symbolId
    else []
  | .configApplied configVersion =>
    if s.maxSymbols ≤ record.symbolId ∨ configVersion ≤ s.configVersions record.symbolId then []
    else [.configReload record.symbolId configVersion]
  | .bbo .. => []
  | .orderInserted .. => []
  | .orderCancelled .. => []

/-! ## The effect of a record -/

/-- Only the events are new as far as the books and the ring go. -/
structure Writes (s s' : Shard) (events : List PersistEvent) : Prop extends s.BooksKept s' where
  fees : s.SameFees s'
  persist : s'.persist = s.persist.map (· ++ events)

theorem writes_pushAll (s : Shard) (events : List PersistEvent) :
    s.Writes (s.pushAll events) events :=
  ⟨⟨⟨rfl, rfl⟩, fun _ _ => rfl, fun _ => rfl, rfl⟩, ⟨rfl, rfl⟩, rfl⟩

theorem Writes.refl (s : Shard) : s.Writes s [] := by
  have hnone := s.writes_pushAll []
  rw [pushAll_nil] at hnone
  exact hnone

theorem writes_confirmFreeze (s : Shard) (userId : Nat) (orderId : OrderId) (symbolId : Nat) :
    s.Writes (s.confirmFreeze userId orderId symbolId)
    (s.confirmEvents userId orderId symbolId) := by
  rw [confirmFreeze_eq]
  exact s.writes_pushAll _

theorem writes_releaseFrozenForOrder (s : Shard) (userId : Nat) (orderId : OrderId) :
    s.Writes (s.releaseFrozenForOrder userId orderId) (s.releaseEvents userId orderId) := by
  rw [releaseFrozenForOrder_eq, releaseEvents]
  split
  · exact ⟨⟨⟨rfl, rfl⟩, fun _ _ => rfl, fun _ => rfl, rfl⟩, ⟨rfl, rfl⟩, rfl⟩
  · exact .refl s

theorem account_ensureAccount (s : Shard) (userId other : Nat) :
    (s.ensureAccount userId).account other = s.account other := by
  rw [ensureAccount_eq]
  refine (getD_update ..).trans ?_
  split_ifs with hother
  · rw [hother]
  · rfl

theorem writes_replayFreezeOrder (s : Shard) (userId : Nat) (orderId : OrderId) (price qty : Int)
    (symbolId : Nat) : s.Writes (s.replayFreezeOrder userId orderId price qty symbolId) [] := by
  have haccounts := s.account_ensureAccount userId
  unfold replayFreezeOrder
  dsimp only
  rw [ensureAccount_eq] at haccounts ⊢
  split <;> exact ⟨⟨⟨rfl, rfl⟩, fun _ _ => rfl, haccounts, rfl⟩, ⟨rfl, rfl⟩,
    (Writes.refl s).persist⟩

theorem writes_processBbo (s : Shard) (bbo : BboUpdate) : s.Writes (s.processBbo bbo) [] := by
  unfold processBbo
  split
  · exact .refl s
  · exact ⟨⟨⟨rfl, rfl⟩, fun _ _ => rfl, fun _ => rfl, rfl⟩, ⟨rfl, rfl⟩, (Writes.refl s).persist⟩

theorem writes_stashBbo (s : Shard) (bbo : BboUpdate) : s.Writes (s.stashBbo bbo) [] := by
  unfold stashBbo
  split
  · exact .refl s
  · exact ⟨⟨⟨rfl, rfl⟩, fun _ _ => rfl, fun _ => rfl, rfl⟩, ⟨rfl, rfl⟩, (Writes.refl s).persist⟩

theorem writes_takeIn (s : Shard) (route : Route) (h : record.fill? = none) :
    s.Writes (s.takeIn route record) (s.eventsOf route record) := by
  obtain ⟨symbolId, seq, body⟩ := record
  cases body with
  | fill => cases h
  | orderDone | orderFailed => cases route <;> exact s.writes_releaseFrozenForOrder ..
  | orderAccepted order =>
    unfold eventsOf
    cases route with
    | live =>
      rw [takeIn, receive]
      simp only [true_and]
      split
      · exact s.writes_confirmFreeze ..
      · exact .refl s
    | drained =>
      rw [takeIn, applyRecord]
      simp only [reduceCtorEq, false_and, if_false]
      split
      · exact s.writes_replayFreezeOrder ..
      · exact .refl s
  | bbo =>
    cases route with
    | live => exact s.writes_stashBbo _
    | drained => exact s.writes_processBbo _
  | configApplied configVersion =>
    have hconfig : s.Writes (s.processConfigApplied symbolId configVersion)
        (s.eventsOf route ⟨symbolId, seq, .configApplied configVersion⟩) := by
      unfold processConfigApplied eventsOf
      dsimp only
      split
      · exact .refl s
      · exact ⟨⟨⟨rfl, rfl⟩, fun _ _ => rfl, fun _ => rfl, rfl⟩, ⟨rfl, rfl⟩, rfl⟩
    cases route <;> exact hconfig
  | orderInserted | orderCancelled => cases route <;> exact .refl s

theorem takeIn_fill (s : Shard) (route : Route) (h : record.fill? = some fill) :
    s.takeIn route record = s.processFill fill := by
  obtain ⟨symbolId, seq, body⟩ := record
  cases body <;> cases h
  cases route <;> rfl

theorem ingests_takeIn (route : Route) : Ingests fun s record => s.takeIn route record :=
  ⟨fun s _ _ h => s.takeIn_fill route h, fun s _ h =>
    ⟨(s.writes_takeIn route h).toBooksKept, (s.writes_takeIn route h).fees⟩⟩

theorem ingests_applyRecord : Ingests applyRecord :=
  ingests_takeIn .drained

end Shard

/-! ## Rows and tips -/

namespace PersistEvent

def isRow : PersistEvent → Bool
  | .position _ => true
  | .account _ => true
  | .fundingSettlement _ => true
  | _ => false

def isTip : PersistEvent → Bool
  | .tip .. => true
  | _ => false

end PersistEvent

namespace Database

variable {db db' : Database} {events events' : List PersistEvent}
  {batches : List (List PersistEvent)}

def writeOne (db : Database) (event : PersistEvent) : Database :=
  match event with
  | .position row => { db with positions := upsertPositions db.positions [row] }
  | .account row => { db with accounts := upsertAccounts db.accounts [row] }
  | .fundingSettlement settlement =>
    { db with accounts := upsertAccounts db.accounts settlement.accounts }
  | .tip symbolId seq => { db with tips := upsertTip db.tips (symbolId, seq) }
  | _ => db

def write (db : Database) (events : List PersistEvent) : Database :=
  events.foldl writeOne db

structure SameBooks (db db' : Database) : Prop where
  positions : db'.positions = db.positions
  accounts : db'.accounts = db.accounts
  tips : db'.tips = db.tips

theorem write_positions (db : Database) (events : List PersistEvent) : (db.write events).positions =
      upsertPositions db.positions (events.filterMap position?) := by
  induction events generalizing db with
  | nil => rfl
  | cons event events ih =>
    refine (ih (db.writeOne event)).trans ?_
    cases event <;> rfl

theorem write_accounts (db : Database) (events : List PersistEvent) : (db.write events).accounts =
      upsertAccounts db.accounts (events.flatMap accountRows) := by
  induction events generalizing db with
  | nil => rfl
  | cons event events ih =>
    refine (ih (db.writeOne event)).trans ?_
    rw [flatMap_cons, upsertAccounts, upsertAccounts, Table.upsertAll_append]
    cases event <;> rfl

theorem write_tips (db : Database) (events : List PersistEvent) :
    (db.write events).tips = upsertTips db.tips (events.filterMap tip?) := by
  induction events generalizing db with
  | nil => rfl
  | cons event events ih =>
    refine (ih (db.writeOne event)).trans ?_
    cases event <;> rfl

theorem SameBooks.trans {db'' : Database} (h : db.SameBooks db') (h' : db'.SameBooks db'') :
    db.SameBooks db'' :=
  ⟨h'.positions.trans h.positions, h'.accounts.trans h.accounts, h'.tips.trans h.tips⟩

theorem SameBooks.write (h : db.SameBooks db') (events : List PersistEvent) :
    (db.write events).SameBooks (db'.write events) :=
  ⟨by rw [write_positions, write_positions, h.positions],
    by rw [write_accounts, write_accounts, h.accounts], by rw [write_tips, write_tips, h.tips]⟩

def tip (db : Database) (symbolId : Nat) : Nat :=
  ((Table.find Prod.fst symbolId db.tips).map Prod.snd).getD 0

theorem tip_writeOne (db : Database) (symbolId seq other : Nat) :
    (db.writeOne (.tip symbolId seq)).tip other =
      if other = symbolId then max (db.tip symbolId) seq else db.tip other := by
  unfold tip writeOne upsertTip
  split_ifs with hother
  · subst hother
    have hfind := @Table.find_upsert_accepted _ _ _ Prod.fst (fun _ _ => true) db.tips
      (other, max (db.tip other) seq) fun _ _ => rfl
    exact congrArg (fun row => (row.map Prod.snd).getD 0) hfind
  · rw [Table.find_upsert_of_ne fun h => hother h.symm]

/-! ## Covering -/

/-- The tables hold the books of the fills and fees, and the tips. -/
structure Covers (db : Database) (s₀ : Shard) (fills : List FillEvent) (charged : Nat → List Int)
    (tips : Nat → Nat) : Prop where
  positions : Table.Reads (fun p : Position => (p.userId, p.symbolId))
    (fun k => { userId := k.1, symbolId := k.2 }) db.positions
    fun k => s₀.bookedPosition fills k.1 k.2
  accounts : Table.Reads Account.userId (fun userId => ⟨userId, 0, 0⟩) db.accounts
    (Shard.bookedAccount charged)
  owned : ∀ userId, ¬ s₀.userInShard userId → charged userId = []
  tips : ∀ symbolId, db.tip symbolId = tips symbolId

theorem Covers.congr {s₀ : Shard} {fills : List FillEvent} {charged : Nat → List Int}
    {tips : Nat → Nat} (h : db.Covers s₀ fills charged tips) (hsame : db.SameBooks db') :
    db'.Covers s₀ fills charged tips := by
  obtain ⟨hpositions, haccounts, htips⟩ := hsame
  refine ⟨hpositions ▸ h.positions, haccounts ▸ h.accounts, h.owned, fun symbolId => ?_⟩
  rw [tip, htips]
  exact h.tips symbolId

end Database

namespace Shard

variable {s s₀ : Shard} {fill : FillEvent} {fills : List FillEvent} {userId symbolId : Nat}
  {charged : Nat → List Int} {tips : Nat → Nat} {db : Database}

theorem rows_fillEvents {position : Nat → Position} {account : Nat → Account}
    (h : ∀ userId ∈ s.partiesIn fill, s.positions userId fill.symbolId = some (position userId) ∧
      s.accounts userId = some (account userId)) :
    (s.fillEvents fill).filterMap position? = (s.partiesIn fill).map position ∧
      (s.fillEvents fill).flatMap accountRows = (s.partiesIn fill).map account ∧
      (s.fillEvents fill).filterMap tip? = [(fill.symbolId, fill.seq)] := by
  have hrows : ∀ userId ∈ s.partiesIn fill, s.rows userId fill.symbolId =
      [.position (position userId), .account (account userId)] := by
    intro userId hmem
    obtain ⟨hposition, haccount⟩ := h userId hmem
    rw [rows, hposition, haccount]
    rfl
  unfold fillEvents partiesIn
  split_ifs with htaker hmaker hmaker
  · rw [hrows _ (mem_partiesIn.2 ⟨htaker, .inl rfl⟩), hrows _ (mem_partiesIn.2 ⟨hmaker, .inr rfl⟩)]
    exact ⟨rfl, rfl, rfl⟩
  · rw [hrows _ (mem_partiesIn.2 ⟨htaker, .inl rfl⟩)]
    exact ⟨rfl, rfl, rfl⟩
  · rw [hrows _ (mem_partiesIn.2 ⟨hmaker, .inr rfl⟩)]
    exact ⟨rfl, rfl, rfl⟩
  · exact ⟨rfl, rfl, rfl⟩

/-! ## Booked rows -/

theorem applyLegs_ids (p : Position) (seq : Nat) (legs : List Leg) :
    (p.applyLegs seq legs).userId = p.userId ∧ (p.applyLegs seq legs).symbolId = p.symbolId ∧
      p.version ≤ (p.applyLegs seq legs).version := by
  unfold Position.applyLegs
  induction legs generalizing p with
  | nil => exact ⟨rfl, rfl, le_rfl⟩
  | cons leg legs ih =>
    obtain ⟨huser, hsymbol, _⟩ := p.applyFill_ids leg.side leg.price leg.qty seq
    obtain ⟨huser', hsymbol', _⟩ := ih (p.applyFill leg.side leg.price leg.qty seq)
    rw [foldl_cons]
    exact ⟨huser'.trans huser, hsymbol'.trans hsymbol, by omega⟩

theorem bookedPosition_ids (s : Shard) (fills : List FillEvent) (userId symbolId : Nat) :
    (s.bookedPosition fills userId symbolId).userId = userId ∧
      (s.bookedPosition fills userId symbolId).symbolId = symbolId := by
  induction fills using List.reverseRecOn with
  | nil => exact ⟨rfl, rfl⟩
  | append_singleton fills fill ih =>
    rw [bookedPosition_snoc]
    obtain ⟨huser, hsymbol, _⟩ := applyLegs_ids (s.bookedPosition fills userId symbolId) fill.seq
      (s.legsIn userId symbolId fill)
    exact ⟨huser.trans ih.1, hsymbol.trans ih.2⟩

theorem foldl_deductFee_ids (a : Account) (fees : List Int) :
    (fees.foldl Account.deductFee a).userId = a.userId ∧
      a.version ≤ (fees.foldl Account.deductFee a).version := by
  induction fees generalizing a with
  | nil => exact ⟨rfl, le_rfl⟩
  | cons fee fees ih =>
    obtain ⟨huser, hversion⟩ := ih (a.deductFee fee)
    exact ⟨huser, (Nat.le_succ a.version).trans hversion⟩

/-- **Rows of a fill.**  Written to tables that cover some fills, the rows of the parties as they
are after one more fill make the tables cover that fill too. -/
theorem covers_fill (hcovers : db.Covers s₀ fills charged tips) (hshard : s₀.SameShard s)
    {fees : Nat → List Int} (hfees : ∀ userId, userId ∉ s₀.partiesIn fill → fees userId = [])
    (hrows : ∀ userId ∈ s₀.partiesIn fill, s.positions userId fill.symbolId =
          some (s₀.bookedPosition (fills ++ [fill]) userId fill.symbolId) ∧
        s.accounts userId =
          some (bookedAccount (fun userId => charged userId ++ fees userId) userId)) :
    (db.write (s.fillEvents fill)).Covers s₀ (fills ++ [fill])
      (fun userId => charged userId ++ fees userId)
      (update tips fill.symbolId (max (tips fill.symbolId) fill.seq)) := by
  have hparties : s.partiesIn fill = s₀.partiesIn fill := by
    rw [partiesIn, partiesIn, hshard.users]
  obtain ⟨hpositions, haccounts, htip⟩ := rows_fillEvents (hparties ▸ hrows)
  refine ⟨?_, ?_, fun userId hforeign => ?_, fun symbolId => ?_⟩
  · rw [Database.write_positions, hpositions, hparties]
    have hmap : (s₀.partiesIn fill).map
          (fun userId => s₀.bookedPosition (fills ++ [fill]) userId fill.symbolId) =
        ((s₀.partiesIn fill).map fun userId => (userId, fill.symbolId)).map
          fun k => s₀.bookedPosition (fills ++ [fill]) k.1 k.2 := by
      rw [map_map]
      rfl
    rw [hmap]
    refine hcovers.positions.upsertAll (fun k _ => ?_) (fun k _ => ?_) (fun k hmem => ?_)
    · obtain ⟨huser, hsymbol⟩ := bookedPosition_ids s₀ (fills ++ [fill]) k.1 k.2
      exact Prod.ext huser hsymbol
    · refine ⟨?_, decide_eq_true le_rfl⟩
      rw [bookedPosition_snoc]
      exact decide_eq_true (applyLegs_ids ..).2.2
    · rw [bookedPosition_snoc]
      by_cases hsymbol : fill.symbolId = k.2
      · rw [legsIn_of_not_party]
        · rfl
        · intro hparty
          exact hmem (mem_map.2 ⟨k.1, hparty, Prod.ext rfl hsymbol⟩)
      · rw [legsIn_of_ne hsymbol]
        rfl
  · rw [Database.write_accounts, haccounts, hparties]
    refine hcovers.accounts.upsertAll (fun userId _ => ?_) (fun userId _ => ?_)
      (fun userId hmem => ?_)
    · exact (foldl_deductFee_ids ..).1
    · refine ⟨?_, decide_eq_true le_rfl⟩
      rw [bookedAccount, bookedAccount, foldl_append]
      exact decide_eq_true (foldl_deductFee_ids ..).2
    · rw [bookedAccount, hfees userId hmem, append_nil]
      rfl
  · rw [hcovers.owned userId hforeign, hfees userId fun hmem => hforeign (mem_partiesIn.1 hmem).1]
    rfl
  · have hwritten : (db.write (s.fillEvents fill)).tip symbolId =
        (db.writeOne (.tip fill.symbolId fill.seq)).tip symbolId := by
      rw [Database.tip, Database.write_tips, htip]
      rfl
    rw [hwritten, Database.tip_writeOne, hcovers.tips, hcovers.tips]
    split_ifs with hsymbol
    · rw [hsymbol, update_self]
    · rw [update_of_ne hsymbol]

/-! ## The rows of the shard -/

theorem isSome_applyLeg (s : Shard) (user : Nat) (fill : FillEvent) (side : Side) (fee : Int)
    (userId : Nat) (h : (s.userInShard userId ∧ user = userId) ∨
      ((s.positions userId fill.symbolId).isSome ∧ (s.accounts userId).isSome)) :
    ((s.applyLeg user fill side fee).positions userId fill.symbolId).isSome ∧
      ((s.applyLeg user fill side fee).accounts userId).isSome := by
  rw [applyLeg_eq]
  rcases eq_or_ne userId user with rfl | hne
  · split_ifs with hshard
    · unfold bookLeg
      dsimp only
      rw [update_self, update_self, update_self]
      exact ⟨rfl, rfl⟩
    · exact h.resolve_left fun h => hshard h.1
  · have hold := h.resolve_left fun h => hne h.2.symm
    split_ifs with hshard
    · unfold bookLeg
      dsimp only
      rw [update_of_ne hne, update_of_ne hne]
      exact hold
    · exact hold

theorem rows_bookFill (hmem : userId ∈ s.partiesIn fill) :
    (s.bookFill fill).positions userId fill.symbolId =
        some ((s.bookFill fill).position userId fill.symbolId) ∧
      (s.bookFill fill).accounts userId = some ((s.bookFill fill).account userId) := by
  obtain ⟨hshard, hparty⟩ := mem_partiesIn.1 hmem
  have hsome : ((s.bookFill fill).positions userId fill.symbolId).isSome ∧
      ((s.bookFill fill).accounts userId).isSome := by
    refine isSome_applyLeg _ fill.makerUserId fill _ _ userId ?_
    rcases hparty with htaker | hmaker
    · right
      exact isSome_applyLeg s fill.takerUserId fill _ _ userId (.inl ⟨hshard, htaker.symm⟩)
    · left
      rw [userInShard_applyLeg]
      exact ⟨hshard, hmaker.symm⟩
  unfold position account
  obtain ⟨⟨_, hposition⟩, ⟨_, haccount⟩⟩ :=
    And.intro (Option.isSome_iff_exists.1 hsome.1) (Option.isSome_iff_exists.1 hsome.2)
  rw [hposition, haccount]
  exact ⟨rfl, rfl⟩

theorem Booked.rows (h : s₀.Booked s fills charged) (hfresh : s.Fresh fill) :
    s₀.SameShard (s.bookFill fill) ∧ ∀ userId ∈ s.partiesIn fill,
      (s.bookFill fill).positions userId fill.symbolId =
          some (s₀.bookedPosition (fills ++ [fill]) userId fill.symbolId) ∧
        (s.bookFill fill).accounts userId =
          some (bookedAccount (fun userId => charged userId ++ s.feesIn userId fill) userId) := by
  obtain ⟨_, _, _, _, hfill⟩ := processFill_of_fresh hfresh
  have hafter := h.processFill hfresh
  rw [hfill] at hafter
  refine ⟨⟨hafter.shard.users, hafter.shard.symbols⟩, fun userId hmem => ?_⟩
  obtain ⟨hposition, haccount⟩ := rows_bookFill hmem
  rw [hposition, haccount, ← hafter.positions, ← hafter.accounts]
  exact ⟨rfl, rfl⟩

end Shard

end Rsx.Risk
