import Rsx.Book.Representation
import Rsx.Book.Submission
import Rsx.Matching.Engine

/-!
# What one action does

An order is a duplicate, or it goes through the book; a cancel misses, finds a stale handle or takes
an order out.  Every later fact about runs of the engine follows from these.
-/

namespace Rsx.Matching

open Book Orderbook Option List

variable {e e' : Engine} {b b' : Orderbook} {q : Nat → List Nat} {free : List Nat}
  {config : BookConfig} {capacity : Nat} {actions : List Action}

namespace WalWriter

variable (w : WalWriter) (records : List Record)

theorem appendAll_eq : (w.appendAll records).nextSeq = w.nextSeq + records.length ∧
    (w.appendAll records).records = w.records ++ (records.zipIdx w.nextSeq).map Prod.swap := by
  unfold appendAll
  induction records generalizing w with
  | nil => simp
  | cons record records ih =>
    obtain ⟨hseq, hrecords⟩ := ih (w.append record)
    rw [foldl_cons, hseq, hrecords]
    simp [append, Nat.add_comm, Nat.add_left_comm]

theorem map_snd_appendAll :
    (w.appendAll records).records.map Prod.snd = w.records.map Prod.snd ++ records := by
  rw [(w.appendAll_eq records).2, List.map_append, List.map_map]
  exact congrArg _ (List.zipIdx_map_fst ..)

end WalWriter

def Record.isNotice : Record → Bool
  | .orderFailed .. | .configApplied .. => true
  | _ => false

def newRecords (e e' : Engine) : List Record :=
  (e'.wal.records.drop e.wal.records.length).map Prod.snd

theorem newRecords_eq {records : List Record} (hwal : e'.wal = e.wal.appendAll records) :
    newRecords e e' = records := by
  rw [newRecords, hwal, (e.wal.appendAll_eq records).2, List.drop_left, List.map_map]
  exact List.zipIdx_map_fst ..

theorem toIncoming_accepted (msg : OrderMessage) (tsNs : Nat) :
    (msg.accepted tsNs).toIncoming = (toIncoming msg).stamped tsNs :=
  rfl

theorem maybeRecenter_kept (hk : Kept b q free) (hsum : b.exchange.totalQty ≤ i64Max)
    (hrun : maybeRecenter b = some b') :
    ∃ q', Kept b' q' free ∧ b'.held = b.held ∧ b'.users = b.users ∧ b'.eventBuf = b.eventBuf ∧
      b'.config = b.config ∧ b'.orders.capacity = b.orders.capacity := by
  unfold maybeRecenter at hrun
  by_cases hone : b.bestTick .buy = NONE ∨ b.bestTick .sell = NONE
  · rw [if_pos hone] at hrun
    cases hrun
    exact ⟨q, hk, rfl, rfl, rfl, rfl, rfl⟩
  dsimp only at hrun
  split_ifs at hrun
  · exact hk.recenterNow hsum hrun
  · cases hrun
    exact ⟨q, hk, rfl, rfl, rfl, rfl, rfl⟩

namespace Engine

variable {msg : OrderMessage} {acceptNs publishNs : Nat} {request : CancelRequest}

/-- The engine after an order that is not a duplicate, with the book `b` right after the match and
`b'` after recentering. -/
def accepted (e : Engine) (msg : OrderMessage) (acceptNs publishNs : Nat) (b b' : Orderbook) :
    Engine where
  book := b'
  orderIndex := updateOrderIndex b.eventBuf e.orderIndex
  dedup := (e.dedup.checkAndInsert msg.key).2
  wal := publishEvents (e.wal.append (.orderAccepted (msg.accepted acceptNs))) b publishNs

def duplicate (e : Engine) (msg : OrderMessage) (acceptNs : Nat) : Engine :=
  { e with
    wal := e.wal.append (.orderFailed acceptNs msg.userId msg.orderIdHi msg.orderIdLo
      (failureReasonCode .duplicate)) }

theorem processOrder_cases (hrun : e.processOrder msg acceptNs publishNs = some e') :
    e.dedup.seen msg.key = true ∧ e' = e.duplicate msg acceptNs ∨
    e.dedup.seen msg.key = false ∧ ∃ b b', e.book.processNewOrder (toIncoming msg) = some b ∧
      maybeRecenter b = some b' ∧ e' = e.accepted msg acceptNs publishNs b b' := by
  unfold processOrder at hrun
  cases hseen : e.dedup.seen msg.key with
  | true =>
    have hdup : e.dedup.checkAndInsert msg.key = (true, e.dedup) := if_pos hseen
    rw [hdup] at hrun
    exact .inl ⟨rfl, (some.inj hrun).symm⟩
  | false =>
    have hfresh : (e.dedup.checkAndInsert msg.key).1 = false := by
      rw [DedupTracker.checkAndInsert, if_neg (by simp [hseen])]
    dsimp only at hrun
    rw [hfresh] at hrun
    obtain ⟨b, hprocess, hrun⟩ := bind_eq_some_iff.1 hrun
    obtain ⟨b', hrecenter, hrun⟩ := bind_eq_some_iff.1 hrun
    exact .inr ⟨rfl, b, b', hprocess, hrecenter, (some.inj hrun).symm⟩

def cancelEvents (request : CancelRequest) (found : Nat) (slot : OrderSlot) (bbo : Option Bbo) :
    List Event :=
  .orderCancelled found request.userId slot.remainingQty request.orderIdHi request.orderIdLo ::
    .orderDone found slot.tif slot.reduceOnly request.userId .userCancel 0 slot.remainingQty
      request.orderIdHi request.orderIdLo :: bbo.toList.map Bbo.event

def cleared (b : Orderbook) : Orderbook :=
  { b with eventBuf := [] }

def cancelled (e : Engine) (publishNs found : Nat) (events : List Event) : Engine :=
  let book : Orderbook := { ((cleared e.book).cancelOrder found).2 with eventBuf := events }
  { e with
    book := book
    orderIndex := updateOrderIndex events e.orderIndex
    wal := publishEvents e.wal book publishNs }

theorem cancelOrder_active {h : Nat} (hactive : (b.slot h).active = true) :
    (b.cancelOrder h).1 = true ∧ (b.cancelOrder h).2.eventBuf = b.eventBuf := by
  have hget : (b.orders.get h).active = true := hactive
  unfold Orderbook.cancelOrder
  rw [if_neg (not_not.2 hget)]
  refine ⟨rfl, ?_⟩
  dsimp only
  split_ifs <;> rfl

theorem processCancel_cases (hrun : e.processCancel request publishNs = some e') :
    e.orderIndex request.key = none ∧ e' = e ∨
    ∃ found, e.orderIndex request.key = some found ∧
      (e.book.orderMatches found request.userId request.orderIdHi request.orderIdLo = false ∧
          e' = { e with book := cleared e.book } ∨
        e.book.orderMatches found request.userId request.orderIdHi request.orderIdLo = true ∧
          ∃ bbo, e' = e.cancelled publishNs found
            (cancelEvents request found (e.book.slot found) bbo)) := by
  unfold processCancel at hrun
  cases hfound : e.orderIndex request.key with
  | none =>
    rw [hfound] at hrun
    exact .inl ⟨rfl, (some.inj hrun).symm⟩
  | some found =>
    simp only [hfound] at hrun
    refine .inr ⟨found, rfl, ?_⟩
    set b₀ : Orderbook := { e.book with eventBuf := [] } with hb₀
    have hsame : b₀.orderMatches found request.userId request.orderIdHi request.orderIdLo =
        e.book.orderMatches found request.userId request.orderIdHi request.orderIdLo := rfl
    unfold cancelOrderChecked at hrun
    rw [hsame] at hrun
    cases hmatches : e.book.orderMatches found request.userId request.orderIdHi
        request.orderIdLo with
    | false =>
      simp only [hmatches, Bool.false_eq_true, if_false] at hrun
      exact .inl ⟨rfl, (some.inj hrun).symm⟩
    | true =>
      simp only [hmatches, if_true] at hrun
      have hactive : (b₀.slot found).active = true := (of_decide_eq_true hmatches).2.1
      obtain ⟨htrue, hbuf⟩ := cancelOrder_active hactive
      rw [htrue] at hrun
      obtain ⟨_, hemit₁, hrun⟩ := bind_eq_some_iff.1 hrun
      obtain ⟨b₂, hemit₂, hrun⟩ := bind_eq_some_iff.1 hrun
      have h₁ := emit_some hemit₁
      have h₂ := emit_some hemit₂
      rw [hbuf] at h₁
      rw [h₁] at h₂
      -- The best prices are reported if they moved.
      refine .inr ⟨rfl, ?_⟩
      split_ifs at hrun
      · obtain ⟨_, hemit₃, hrun⟩ := bind_eq_some_iff.1 hrun
        have h₃ := emit_some hemit₃
        refine ⟨some b₂.currentBbo, ?_⟩
        rw [← some.inj hrun, h₃, h₂]
        rfl
      · refine ⟨none, ?_⟩
        rw [← some.inj hrun, h₂]
        rfl

/-- **What a step does.**  An order or a cancel goes through, or the orders stay as they are and the
log takes at most a notice. -/
theorem step_cases {a : Action} (hrun : e.step a = some e') :
    (∃ msg acceptNs publishNs b b', a = .order msg acceptNs publishNs ∧
      e.dedup.seen msg.key = false ∧ e.book.processNewOrder (toIncoming msg) = some b ∧
      maybeRecenter b = some b' ∧ e' = e.accepted msg acceptNs publishNs b b') ∨
    (∃ request publishNs found bbo, a = .cancel request publishNs ∧
      e.orderIndex request.key = some found ∧
      e.book.orderMatches found request.userId request.orderIdHi request.orderIdLo = true ∧
      e' = e.cancelled publishNs found (cancelEvents request found (e.book.slot found) bbo)) ∨
    e'.book.held = e.book.held ∧ e'.book.orders.capacity = e.book.orders.capacity ∧
      ∃ records, e'.wal = e.wal.appendAll records ∧ ∀ record ∈ records, record.isNotice = true := by
  cases a with
  | order msg acceptNs publishNs =>
    rcases processOrder_cases hrun with ⟨-, rfl⟩ | ⟨hseen, b, b', hprocess, hrecenter, rfl⟩
    · exact .inr (.inr ⟨rfl, rfl, [_], rfl, List.forall_mem_singleton.2 rfl⟩)
    · exact .inl ⟨msg, acceptNs, publishNs, b, b', rfl, hseen, hprocess, hrecenter, rfl⟩
  | cancel request publishNs =>
    rcases processCancel_cases hrun with
      ⟨-, rfl⟩ | ⟨found, hfound, ⟨-, rfl⟩ | ⟨hmatches, bbo, rfl⟩⟩
    · exact .inr (.inr ⟨rfl, rfl, [], rfl, nofun⟩)
    · exact .inr (.inr ⟨rfl, rfl, [], rfl, nofun⟩)
    · exact .inr (.inl ⟨request, publishNs, found, bbo, rfl, hfound, hmatches, rfl⟩)
  | maintainUsers | cleanup =>
    cases hrun
    exact .inr (.inr ⟨rfl, rfl, [], rfl, nofun⟩)
  | applyConfig =>
    cases hrun
    exact .inr (.inr ⟨rfl, rfl, [_], rfl, List.forall_mem_singleton.2 rfl⟩)

theorem step_wal {a : Action} (hrun : e.step a = some e') :
    ∃ records, e'.wal = e.wal.appendAll records := by
  rcases step_cases hrun with ⟨_, _, _, _, _, -, -, -, -, rfl⟩ | ⟨_, _, _, _, -, -, -, rfl⟩ |
    ⟨-, -, records, hwal, -⟩
  · exact ⟨_ :: _, rfl⟩
  · exact ⟨_, rfl⟩
  · exact ⟨records, hwal⟩

/-! ## Runs -/

/-- With a new order the quantities of the book fit `i64`. -/
def Legal (e : Engine) : Action → Prop
  | .order msg _ _ => e.book.exchange.totalQty + msg.qty ≤ i64Max
  | _ => True

instance (e : Engine) : ∀ a, Decidable (e.Legal a)
  | .order .. => inferInstanceAs (Decidable (_ ≤ _))
  | .cancel .. | .maintainUsers .. | .cleanup .. | .applyConfig .. => .isTrue trivial

theorem processNewOrder_recorded (hk : Kept b q free) (htotal : b.exchange.totalQty ≤ i64Max)
    (hsum : b.exchange.totalQty + msg.qty ≤ i64Max)
    (hrun : b.processNewOrder (toIncoming msg) = some b') :
    (∃ q' free', Kept b' q' free') ∧ b'.exchange.totalQty ≤ i64Max ∧
      ∃ effective fills handle ending bbo, Recorded effective b fills handle ending bbo b' ∧
        (Accepted b (toIncoming msg) effective ∨
          effective = toIncoming msg ∧ fills = [] ∧ ∃ reason, ending = .failed reason) := by
  have hsum' : PriceTime.total (b.entries q) + (toIncoming msg).remainingQty ≤ i64Max := by
    rw [← hk.queued.totalQty_exchange]
    exact hsum
  obtain ⟨⟨q', free', hq', hindexed⟩, effective, fills, handle, ending, bbo, hr, hcase⟩ :=
    hk.queued.processNewOrder hsum' hrun
  refine ⟨⟨q', free', hq', hindexed hk.indexed, hk.tallied.recorded hq' hr⟩, ?_, effective, fills,
    handle, ending, bbo, hr, ?_⟩
  · rcases hcase with ⟨haligned, hclamp⟩ | ⟨rfl, rfl, reason, rfl⟩
    · obtain ⟨-, hpos, hle⟩ := (Accepted.mk rfl haligned hclamp).eq_setRemaining
      have hadd := hr.totalQty_le hk.queued hq' hpos.le
      have hle' : effective.remainingQty ≤ msg.qty := hle
      omega
    · have hsame : b'.held = b.held := hr.held
      rwa [← hq'.heldQty_eq, hr.frame.capacity, hsame, hk.queued.heldQty_eq]
  · rcases hcase with ⟨haligned, hclamp⟩ | hfailed
    · exact .inl ⟨rfl, haligned, hclamp⟩
    · exact .inr hfailed

structure Healthy (e : Engine) : Prop where
  kept : ∃ q free, Kept e.book q free
  totalQty_le : e.book.exchange.totalQty ≤ i64Max

theorem healthy_new (hcap : capacity ≤ NONE) : Healthy (Engine.new config capacity) where
  kept := ⟨_, _, kept_new hcap⟩
  totalQty_le := by
    have hq : Queued (Engine.new config capacity).book (fun _ => []) [] := queued_new hcap
    rw [← hq.heldQty_eq]
    have hnone : (Engine.new config capacity).book.held = fun _ => none := rfl
    rw [hnone]
    simp [heldQty, i64Max]

theorem Healthy.accepted (h : Healthy e) (hlegal : e.book.exchange.totalQty + msg.qty ≤ i64Max)
    (hprocess : e.book.processNewOrder (toIncoming msg) = some b)
    (hrecenter : maybeRecenter b = some b') :
    Healthy (e.accepted msg acceptNs publishNs b b') := by
  obtain ⟨_, _, hk⟩ := h.kept
  obtain ⟨⟨_, free₁, hk₁⟩, htotal₁, -⟩ :=
    processNewOrder_recorded hk h.totalQty_le hlegal hprocess
  obtain ⟨q₂, hk₂, hheld, -, -, -, hcap⟩ := maybeRecenter_kept hk₁ htotal₁ hrecenter
  refine ⟨⟨q₂, free₁, hk₂⟩, ?_⟩
  show b'.exchange.totalQty ≤ i64Max
  rwa [← hk₂.queued.heldQty_eq, hcap, hheld, hk₁.queued.heldQty_eq]

theorem Healthy.cancelled (h : Healthy e) {found : Nat}
    (hactive : (e.book.slot found).active = true) (events : List Event) :
    Healthy (e.cancelled publishNs found events) := by
  obtain ⟨q, free, hk⟩ := h.kept
  have hk₀ : Kept (cleared e.book) q free := hk.congr [] e.book.config
  have hactive₀ : ((cleared e.book).slot found).active = true := hactive
  obtain ⟨⟨q', free', hk'⟩, -⟩ := hk₀.cancelOrder hactive₀
  refine ⟨⟨q', free', hk'.congr events _⟩, ?_⟩
  have htotal := hk₀.cancelOrder_totalQty hactive₀
  obtain ⟨t, ht⟩ := (hk₀.queued.active found).1 hactive₀
  have hpos := hk₀.queued.pos t found ht
  have hle : (cleared e.book).exchange.totalQty ≤ i64Max := h.totalQty_le
  show ((cleared e.book).cancelOrder found).2.exchange.totalQty ≤ i64Max
  omega

theorem Healthy.step (h : Healthy e) {a : Action} (hlegal : e.Legal a)
    (hrun : e.step a = some e') : Healthy e' := by
  obtain ⟨q, free, hk⟩ := h.kept
  cases a with
  | order =>
    rcases processOrder_cases hrun with ⟨-, rfl⟩ | ⟨-, b, b', hprocess, hrecenter, rfl⟩
    · exact ⟨⟨q, free, hk⟩, h.totalQty_le⟩
    · exact h.accepted hlegal hprocess hrecenter
  | cancel =>
    rcases processCancel_cases hrun with ⟨-, rfl⟩ | ⟨found, -, ⟨-, rfl⟩ | ⟨hmatches, bbo, rfl⟩⟩
    · exact h
    · exact ⟨⟨q, free, hk.congr [] _⟩, h.totalQty_le⟩
    · exact h.cancelled (of_decide_eq_true hmatches).2.1 _
  | maintainUsers nowNs =>
    cases hrun
    exact ⟨⟨q, free, hk.maintainUsers nowNs false⟩, h.totalQty_le⟩
  | cleanup =>
    cases hrun
    exact ⟨⟨q, free, hk⟩, h.totalQty_le⟩
  | applyConfig config =>
    cases hrun
    exact ⟨⟨q, free, hk.congr _ config⟩, h.totalQty_le⟩

end Engine

end Rsx.Matching
