import Rsx.Cast.Overflow

/-!
# Gaps that are asked for

A NAK and a fault name a run of numbers that starts at the expected one.  A sender may restart from
a lower number; the receiver follows it there but keeps the highest number it has seen, so that
numbers of the earlier run count as missing.  They are numbers of the current run as long as the
receiver has seen none that the current run has not sent.  -/

namespace Rsx.Cast

open List CastReceiver

/-- The numbers that the current run of the sender has sent, from `first` to `last`. -/
structure SenderRun where
  first : Nat := 1
  last : Nat := 0
  deriving DecidableEq, Repr

namespace CastReceiver

variable {α : Type} {r : CastReceiver α} {a : Arrival α} {socket : List (Arrival α)}
  {sender : SenderRun}

/-- A number that is expected belongs to the run, or comes next. -/
def InSync (sender : SenderRun) (expected : Nat) : Prop :=
  sender.first ≤ expected ∧ expected ≤ sender.last + 1
  deriving Decidable

/-- A run of missing numbers that starts at the expected one: all have been sent, none is
buffered. -/
structure RealGap (sender : SenderRun) (r : CastReceiver α) (start count : Nat) : Prop where
  start_eq : start = r.expectedSeq
  count_pos : 0 < count
  count_le : count ≤ reorderCapacity + 1
  sent : sender.first ≤ start ∧ start + count ≤ sender.last + 1
  missing : ∀ seq, start ≤ seq → seq < start + count → r.reorderSeqs (slotOf seq) ≠ seq

/-- The receiver expects a number of the run and has seen none that the run has not sent. -/
def Follows (sender : SenderRun) (r : CastReceiver α) : Prop :=
  InSync sender r.expectedSeq ∧ r.highestSeen ≤ sender.last
  deriving Decidable

def expectedFor (r : CastReceiver α) (seq : Nat) : Nat :=
  if r.expectedSeq = 0 ∨ seq + 100 < r.expectedSeq then seq else r.expectedSeq

def judged (r : CastReceiver α) (a : Arrival α) : Option (Nat × Nat) :=
  match a.datagram with
  | .discarded => none
  | .heartbeat highestSeq => some (highestSeq, r.expectedSeq)
  | .data seq _ _ => if seq = 0 then none else some (seq, r.expectedFor seq)

/-- A receiver that follows the current run has seen none of the numbers the run has not sent, and
reads none; one that does not has a NAK left before it faults. -/
def Current (sender : SenderRun) (r : CastReceiver α) (a : Arrival α) : Prop :=
  ∀ seen ∈ r.judged a,
    (InSync sender seen.2 → r.highestSeen ≤ sender.last ∧ seen.1 ≤ sender.last) ∧
      (InSync sender seen.2 ∨ r.nakRetriesOnOldest < r.maxNakRetries)
  deriving Decidable

/-- A call that has been faulted by a heartbeat reads no further record. -/
def Quiet (r : CastReceiver α) (a : Arrival α) : Prop :=
  match a.datagram with
  | .data .. => r.faulted = false
  | _ => True

instance (r : CastReceiver α) (a : Arrival α) : Decidable (r.Quiet a) :=
  decidableOfData (fun _ _ _ => r.faulted = false) a.datagram

def naksFor (r : CastReceiver α) (a : Arrival α) : List (Nat × Nat) :=
  (r.onDatagram a).1.naks.drop r.naks.length

/-- A receiver that follows the current run asks for real gaps. -/
def NaksReal (sender : SenderRun) (r : CastReceiver α) (a : Arrival α) : Prop :=
  InSync sender (r.onDatagram a).1.expectedSeq →
    ∀ nak ∈ r.naksFor a, RealGap sender (r.onDatagram a).1 nak.1 nak.2

/-! ## The oldest missing run -/

theorem oldestMissingRun_spec {start count : Nat} (h : r.oldestMissingRun = some (start, count)) :
    start = r.expectedSeq ∧ 0 < count ∧ count ≤ reorderCapacity + 1 ∧
      start + count ≤ r.highestSeen + 1 ∧
      ∀ seq, start ≤ seq → seq < start + count → r.reorderSeqs (slotOf seq) ≠ seq := by
  unfold oldestMissingRun at h
  dsimp only at h
  cases hfind : (List.range' r.expectedSeq
      (min r.highestSeen (r.expectedSeq + reorderCapacity) + 1 - r.expectedSeq)).find?
        fun seq => r.reorderSeqs (slotOf seq) = seq with
  | none =>
    rw [hfind, Option.getD_none] at h
    split_ifs at h with hstop
    cases h
    refine ⟨rfl, by omega, by omega, by omega, fun seq hle hlt => ?_⟩
    have hmiss := List.find?_eq_none.1 hfind seq (mem_range'_1.2 ⟨hle, by omega⟩)
    simpa using hmiss
  | some =>
    rw [hfind, Option.getD_some] at h
    split_ifs at h with hstop
    cases h
    obtain ⟨-, _, hi, hget, hbefore⟩ := List.find?_eq_some_iff_getElem.1 hfind
    rw [getElem_range'] at hget
    rw [length_range'] at hi
    refine ⟨rfl, by omega, by omega, by omega, fun seq hle hlt => ?_⟩
    have hmiss := hbefore (seq - r.expectedSeq) (by omega)
    rw [getElem_range', Nat.one_mul, Nat.add_sub_cancel' hle] at hmiss
    simpa using hmiss

theorem maybeNak_cases (r : CastReceiver α) (nowNs : Nat) : r.maybeNak nowNs = r ∨
      ∃ start count, r.oldestMissingRun = some (start, count) ∧ r.faulted = false ∧
        (r.maybeNak nowNs).naks = r.naks ++ [(start, count)] ∧
        (r.maybeNak nowNs).highestSeen = r.highestSeen ∧
        ((r.maybeNak nowNs).faulted = true → (r.maybeNak nowNs).faultGapStart = start ∧
          (r.maybeNak nowNs).faultGapEndInclusive = start + count - 1 ∧
          r.maxNakRetries ≤ r.nakRetriesOnOldest) := by
  unfold maybeNak
  split_ifs with hsticky
  · exact .inl rfl
  · have hfaulted : r.faulted = false := Bool.eq_false_iff.2 fun h => hsticky (.inl h)
    cases hrun : r.oldestMissingRun with
    | none => exact .inl rfl
    | some run =>
      obtain ⟨start, count⟩ := run
      dsimp only
      split_ifs with _ hspent
      · exact .inl rfl
      · refine .inr ⟨start, count, rfl, hfaulted, ?_⟩
        unfold fault
        rw [if_neg (by simp [hfaulted])]
        exact ⟨rfl, rfl, fun _ => ⟨rfl, rfl, by omega⟩⟩
      · refine .inr ⟨start, count, rfl, hfaulted, rfl, rfl, fun h => ?_⟩
        exact absurd (hfaulted.symm.trans h) Bool.false_ne_true

/-! ## The gap of a fault -/

/-- The gap that a fault holds is still the oldest missing run. -/
def FaultFresh (r : CastReceiver α) : Prop :=
  r.faulted = true → r.faultGapStart = r.expectedSeq ∧ r.expectedSeq ≤ r.faultGapEndInclusive ∧
    r.faultGapEndInclusive ≤ r.expectedSeq + reorderCapacity ∧
    r.faultGapEndInclusive ≤ r.highestSeen ∧
    ∀ seq, r.expectedSeq ≤ seq → seq ≤ r.faultGapEndInclusive → r.reorderSeqs (slotOf seq) ≠ seq

theorem faultFresh_of_not (h : r.faulted = false) : FaultFresh r :=
  fun hf => absurd (h.symm.trans hf) Bool.false_ne_true

theorem FaultFresh.see (h : FaultFresh r) (seq : Nat) : FaultFresh (r.see seq) := by
  intro hf
  obtain ⟨hstart, hle, hcap, hseen, hmissing⟩ := h hf
  exact ⟨hstart, hle, hcap, hseen.trans (Nat.le_max_left _ _), hmissing⟩

theorem FaultFresh.maybeNak (h : FaultFresh r) (nowNs : Nat)
    (hseen : InSync sender r.expectedSeq → r.highestSeen ≤ sender.last) :
    FaultFresh (r.maybeNak nowNs) ∧
      (InSync sender r.expectedSeq → ∀ nak ∈ (r.maybeNak nowNs).naks.drop r.naks.length,
        RealGap sender (r.maybeNak nowNs) nak.1 nak.2) := by
  rcases r.maybeNak_cases nowNs with hsame | ⟨start, count, hrun, hfaulted, hnaks, hhighest, hgap⟩
  · rw [hsame]
    refine ⟨h, fun _ nak hmem => ?_⟩
    rw [drop_length] at hmem
    cases hmem
  · obtain ⟨hstart, hpos, hcap, hle, hmissing⟩ := oldestMissingRun_spec hrun
    constructor
    · intro hf
      obtain ⟨hgapStart, hgapEnd, -⟩ := hgap hf
      rw [hgapStart, expectedSeq_maybeNak, reorderSeqs_maybeNak]
      refine ⟨hstart, by omega, by omega, by omega, fun seq hseq hseq' => ?_⟩
      exact hmissing seq (by omega) (by omega)
    · intro hsync nak hmem
      rw [hnaks, drop_left, mem_singleton] at hmem
      subst hmem
      have hlast := hseen hsync
      refine ⟨?_, hpos, hcap, ⟨?_, ?_⟩, ?_⟩
      · rw [expectedSeq_maybeNak]
        exact hstart
      · rw [hstart]
        exact hsync.1
      · exact hle.trans (Nat.succ_le_succ hlast)
      · rw [reorderSeqs_maybeNak]
        exact hmissing

theorem expectedSeq_sync (r : CastReceiver α) (seq : Nat) :
    (r.sync seq).expectedSeq = r.expectedFor seq := by
  unfold sync expectedFor
  dsimp only
  split_ifs <;> simp_all <;> omega

theorem gaps_buffer (hfaulted : r.faulted = false) (seq total : Nat) (record : α) (nowNs : Nat)
    (hseen : InSync sender r.expectedSeq → r.highestSeen ≤ sender.last) :
    FaultFresh (r.buffer seq total record nowNs).1 ∧
      (r.buffer seq total record nowNs).1.expectedSeq = r.expectedSeq ∧
      (r.buffer seq total record nowNs).1.highestSeen = r.highestSeen ∧
      ((r.buffer seq total record nowNs).1.faulted = true →
        r.maxNakRetries ≤ r.nakRetriesOnOldest) ∧
      (InSync sender r.expectedSeq →
        ∀ nak ∈ (r.buffer seq total record nowNs).1.naks.drop r.naks.length,
          RealGap sender (r.buffer seq total record nowNs).1 nak.1 nak.2) := by
  have hkeep : ∃ ring frames, r.keep seq total record =
      { r with reorderSeqs := ring, reorderFrames := frames } := by
    unfold keep
    split_ifs <;> exact ⟨_, _, rfl⟩
  obtain ⟨ring, frames, hkeep⟩ := hkeep
  by_cases hconflict : r.Conflict seq total
  · have hframe : ∃ needs last, (r.buffer seq total record nowNs).1 =
        { r with needsReconnect := needs, reconnectLastDeliveredSeq := last } := by
      unfold Conflict at hconflict
      unfold buffer
      rw [if_pos hconflict]
      split_ifs <;> exact ⟨_, _, rfl⟩
    obtain ⟨_, _, hframe⟩ := hframe
    rw [hframe]
    refine ⟨faultFresh_of_not hfaulted, rfl, rfl, fun hf => ?_, fun _ nak hmem => ?_⟩
    · exact absurd (hfaulted.symm.trans hf) Bool.false_ne_true
    · rw [drop_length] at hmem
      cases hmem
  · rw [buffer_of_not_conflict hconflict, hkeep]
    have hfresh : FaultFresh { r with reorderSeqs := ring, reorderFrames := frames } :=
      faultFresh_of_not hfaulted
    obtain ⟨hnext, hnaks⟩ := hfresh.maybeNak nowNs hseen
    refine ⟨hnext, expectedSeq_maybeNak _ _, ?_⟩
    rcases maybeNak_cases { r with reorderSeqs := ring, reorderFrames := frames } nowNs with
      hsame | ⟨_, _, _, _, _, hhighest, hgap⟩
    · rw [hsame] at hnaks ⊢
      exact ⟨rfl, fun hf => absurd (hfaulted.symm.trans hf) Bool.false_ne_true, hnaks⟩
    · exact ⟨hhighest, fun hf => (hgap hf).2.2, hnaks⟩

/-- **One datagram.**  The NAK it causes is for a real gap, the gap of a fault stays fresh, and a
fault that it reports is one of a receiver that follows the current run. -/
theorem FaultFresh.onDatagram (h : FaultFresh r) (hcurrent : Current sender r a)
    (hquiet : r.Quiet a) :
    FaultFresh (r.onDatagram a).1 ∧ NaksReal sender r a ∧
      ((r.onDatagram a).2.isSome → (r.onDatagram a).1.faulted = true →
        Follows sender (r.onDatagram a).1) := by
  unfold NaksReal naksFor
  unfold Current judged at hcurrent
  unfold Quiet at hquiet
  unfold CastReceiver.onDatagram
  cases hd : a.datagram with
  | discarded =>
    refine ⟨h, fun _ nak hmem => ?_, fun hsome => absurd hsome Bool.false_ne_true⟩
    rw [drop_length] at hmem
    cases hmem
  | heartbeat highestSeq =>
    rw [hd] at hcurrent
    have hseen := (hcurrent (highestSeq, r.expectedSeq) rfl).1
    have hbound : InSync sender (r.see highestSeq).expectedSeq →
        (r.see highestSeq).highestSeen ≤ sender.last := by
      intro hsync
      obtain ⟨hold, hnew⟩ := hseen hsync
      exact max_le hold hnew
    obtain ⟨hfresh, hnaks⟩ := (h.see highestSeq).maybeNak a.nowNs hbound
    refine ⟨hfresh, fun hsync => ?_, fun hsome => absurd hsome Bool.false_ne_true⟩
    rw [expectedSeq_maybeNak] at hsync
    exact hnaks hsync
  | data seq total record =>
    rw [hd] at hcurrent hquiet
    dsimp only at hcurrent hquiet ⊢
    rcases eq_or_ne seq 0 with rfl | hseq
    · refine ⟨h, fun _ nak hmem => ?_, fun hsome => absurd hsome Bool.false_ne_true⟩
      have hnone : (r.onData 0 total record a.nowNs).1 = r := rfl
      rw [hnone, drop_length] at hmem
      cases hmem
    · rw [if_neg hseq] at hcurrent
      obtain ⟨hseen, hspent⟩ := hcurrent (seq, r.expectedFor seq) rfl
      rw [← expectedSeq_sync] at hseen hspent
      obtain ⟨_, _, hsync⟩ := r.sync_frame seq
      have hfaulted : (r.sync seq).faulted = false := by
        rw [hsync]
        exact hquiet
      have hnaksSync : (r.sync seq).naks = r.naks := by
        rw [hsync]
      have hhighestSync : (r.sync seq).highestSeen = r.highestSeen := by
        rw [hsync]
      rcases onData_sync (r := r) hseq total record a.nowNs with
        ⟨-, heq⟩ | ⟨hnext, heq⟩ | ⟨hahead, heq⟩
      · rw [heq]
        refine ⟨faultFresh_of_not hfaulted, fun _ nak hmem => ?_,
          fun hsome => absurd hsome Bool.false_ne_true⟩
        rw [hnaksSync, drop_length] at hmem
        cases hmem
      · rw [heq]
        refine ⟨faultFresh_of_not hfaulted, fun _ nak hmem => ?_, fun _ hf => ?_⟩
        · have hnone : ((r.sync seq).accept seq).naks = r.naks := hnaksSync
          rw [hnone, drop_length] at hmem
          cases hmem
        · exact absurd (hfaulted.symm.trans hf) Bool.false_ne_true
      · rw [heq]
        have hbound : InSync sender ((r.sync seq).see seq).expectedSeq →
            ((r.sync seq).see seq).highestSeen ≤ sender.last := by
          intro hin
          obtain ⟨hold, hnew⟩ := hseen hin
          exact max_le (hhighestSync.le.trans hold) hnew
        have hfaulted' : ((r.sync seq).see seq).faulted = false := hfaulted
        obtain ⟨hfresh, hexpected, hhighest, hretries, hnaks⟩ :=
          gaps_buffer hfaulted' seq total record a.nowNs hbound
        have hnaksSee : ((r.sync seq).see seq).naks = r.naks := hnaksSync
        rw [hnaksSee] at hnaks
        refine ⟨hfresh, fun hin => ?_, fun _ hf => ?_⟩
        · rw [hexpected] at hin
          exact hnaks hin
        · have hnone : r.maxNakRetries ≤ r.nakRetriesOnOldest := by
            have := hretries hf
            rw [hsync] at this
            exact this
          have hin := hspent.resolve_right (Nat.not_lt.2 hnone)
          unfold Follows
          rw [hexpected, hhighest]
          exact ⟨hin, hbound hin⟩

/-! ## Calls -/

theorem FaultFresh.drain (h : FaultFresh r) : FaultFresh r.drain.1 := by
  unfold CastReceiver.drain
  dsimp only
  split_ifs with hnext
  · cases r.reorderFrames (slotOf r.expectedSeq) with
    | none => exact h
    | some =>
      intro hf
      obtain ⟨-, hle, -, -, hmissing⟩ := h hf
      exact absurd hnext.2 (hmissing r.expectedSeq le_rfl hle)
  · exact h

def ReportReal (sender : SenderRun) (r : CastReceiver α) : CastRecvWith α → Prop
  | .faulted _ gapStart gapEnd => RealGap sender r gapStart (gapEnd + 1 - gapStart)
  | _ => True

theorem FaultFresh.report (h : FaultFresh r) (hf : r.faulted = true) (hfollows : Follows sender r) :
    ReportReal sender r r.faultedResult := by
  obtain ⟨hstart, _, _, _, hmissing⟩ := h hf
  obtain ⟨⟨hfirst, _⟩, hlast⟩ := hfollows
  refine ⟨hstart, by omega, by omega, ⟨by omega, by omega⟩, fun seq hseq hseq' => ?_⟩
  exact hmissing seq (by omega) (by omega)

theorem FaultFresh.recvLoop (h : FaultFresh r)
    (hreads : Reads (fun r a => Current sender r a ∧ r.Quiet a) r socket) :
    FaultFresh (r.recvLoop socket).1 ∧ Reads (NaksReal sender) r socket ∧
      ReportReal sender (r.recvLoop socket).1 (r.recvLoop socket).2.2 := by
  induction socket generalizing r with
  | nil =>
    refine ⟨h.drain, trivial, ?_⟩
    unfold CastReceiver.recvLoop CastReceiver.drain
    dsimp only
    split_ifs
    · cases r.reorderFrames (slotOf r.expectedSeq) <;> exact trivial
    · exact trivial
  | cons a socket ih =>
    obtain ⟨hfresh, hnaks, hseen⟩ := h.onDatagram hreads.1.1 hreads.1.2
    unfold CastReceiver.recvLoop
    cases hresult : (r.onDatagram a).2 with
    | some result =>
      refine ⟨hfresh, ⟨hnaks, fun hnone => ?_⟩, ?_⟩
      · rw [hresult] at hnone
        cases hnone
      · cases result with
        | empty | data | reconnect => exact trivial
        | faulted =>
          obtain ⟨hf, hreport⟩ := r.stands_onDatagram a _ hresult
          have hreal := hfresh.report hf (hseen (by rw [hresult]; rfl) hf)
          rw [hreport] at hreal
          exact hreal
    | none =>
      obtain ⟨hrest, hreads', hreport⟩ := ih hfresh (hreads.2 (by rw [hresult]; rfl))
      exact ⟨hrest, ⟨hnaks, fun _ => hreads'⟩, hreport⟩

theorem FaultFresh.tryRecvWith (h : FaultFresh r)
    (hseen : r.faulted = true → Follows sender r)
    (hreads : CallReads (fun r a => Current sender r a ∧ r.Quiet a) r socket) :
    FaultFresh (r.tryRecvWith socket).1 ∧ CallReads (NaksReal sender) r socket ∧
      ReportReal sender (r.tryRecvWith socket).1 (r.tryRecvWith socket).2.2 := by
  rcases r.tryRecvWith_cases socket with ⟨hreconnect, heq⟩ | ⟨hfaulted, heq⟩ | ⟨hopen, heq⟩ <;>
    rw [heq]
  · exact ⟨h, fun hopen => absurd (hopen.1.symm.trans hreconnect) Bool.false_ne_true, trivial⟩
  · exact ⟨h, fun hopen => absurd (hopen.2.symm.trans hfaulted) Bool.false_ne_true,
      h.report hfaulted (hseen hfaulted)⟩
  · obtain ⟨hfresh, hnaks, hreport⟩ := h.recvLoop (hreads hopen)
    exact ⟨hfresh, fun _ => hnaks, hreport⟩

end CastReceiver

/-! ## Runs of the sender -/

structure Feed (α : Type) where
  consumer : Consumer α
  sender : SenderRun := {}

inductive FeedAction (α : Type)
  | send
  | restart (before : Nat)
  | consume (action : Action α)

namespace Feed

variable {α : Type} {f f' : Feed α} {action : FeedAction α}

/-- A restart goes on after the number `before`, which may be lower than what was sent. -/
def step (f : Feed α) : FeedAction α → Option (Feed α)
  | .send => some { f with sender := { f.sender with last := f.sender.last + 1 } }
  | .restart before => some { f with sender := ⟨before + 1, before⟩ }
  | .consume action => (f.consumer.step action).map fun consumer => { f with consumer := consumer }

def start (nakDebounceNs maxNakRetries : Nat) : Feed α :=
  { consumer := Consumer.start nakDebounceNs maxNakRetries }

/-- A fault of an earlier call is reported while the receiver follows the current run; every
datagram is read as `CastReceiver.Current` says; and a call that has been faulted by a heartbeat
reads no further record. -/
def Current (f : Feed α) : FeedAction α → Prop
  | .consume .poll =>
    (f.consumer.receiver.faulted = true → f.consumer.receiver.Follows f.sender) ∧
    f.consumer.receiver.CallReads (fun r a => CastReceiver.Current f.sender r a ∧ r.Quiet a)
      f.consumer.socket
  | _ => True

instance (f : Feed α) (action : FeedAction α) : Decidable (f.Current action) := by
  unfold Current
  split <;> infer_instance

/-- The NAKs that a call sends and the gap that it reports are real. -/
def GapsReal (f : Feed α) : FeedAction α → Prop
  | .consume .poll =>
    f.consumer.receiver.CallReads (NaksReal f.sender) f.consumer.socket ∧
    (f.consumer.receiver.tryRecvWith f.consumer.socket).1.ReportReal f.sender
      (f.consumer.receiver.tryRecvWith f.consumer.socket).2.2
  | _ => True

theorem faultFresh_step (h : f.consumer.receiver.FaultFresh) (hcurrent : f.Current action)
    (hstep : f.step action = some f') : f'.consumer.receiver.FaultFresh := by
  cases action with
  | send | restart =>
    cases hstep
    exact h
  | consume action =>
    obtain ⟨_, hconsumer, rfl⟩ := Option.map_eq_some_iff.1 hstep
    cases action with
    | arrive =>
      cases hconsumer
      exact h
    | poll =>
      cases hconsumer
      rw [Consumer.receiver_handle]
      exact (h.tryRecvWith hcurrent.1 hcurrent.2).1
    | resetAfterReplay =>
      cases hconsumer
      exact faultFresh_of_not rfl

/-- **Real gaps.**  In every run of calls and of restarts of the sender that meets the condition,
every NAK sent while the receiver follows the current run and every gap reported is one of numbers
that the run has sent, starts at the expected one, has no buffered record and at most one more entry
than the ring. -/
theorem gaps_real {nakDebounceNs maxNakRetries : Nat} {actions : List (FeedAction α)}
    (hcurrent : Along step Current (start nakDebounceNs maxNakRetries) actions) :
    Along step GapsReal (start nakDebounceNs maxNakRetries) actions := by
  refine Along.of_invariant (I := fun f : Feed α => f.consumer.receiver.FaultFresh)
    (fun h hok hstep => faultFresh_step h hok hstep) (fun {f action} h hok => ?_)
    (CastReceiver.faultFresh_of_not rfl) hcurrent
  cases action with
  | send | restart => exact trivial
  | consume action =>
    cases action with
    | arrive => exact trivial
    | poll => exact (h.tryRecvWith hok.1 hok.2).2
    | resetAfterReplay => exact trivial

def received (seq nowNs : Nat) : FeedAction Nat :=
  .consume (Consumer.datagram seq nowNs)

def heard (highestSeq nowNs : Nat) : FeedAction Nat :=
  .consume (.arrive ⟨.heartbeat highestSeq, nowNs⟩)

/-- The sender restarts from 1 and has sent 102 numbers before the receiver follows it; what the
heartbeats announce does not arrive. -/
def caughtUp : List (FeedAction Nat) :=
  [.restart 101, .send, received 102 1, .consume .poll, .restart 0] ++ List.replicate 102 .send ++
    [received 1 2, .consume .poll] ++ (Consumer.unanswered 102 3).map .consume ++ [.consume .poll]

theorem gaps_real_caughtUp :
    Along step GapsReal (start 50000000 8) (caughtUp ++ [.consume .poll]) ∧
      ∃ f ∈ run step (start 50000000 8) caughtUp,
        f.consumer.receiver.naks = List.replicate 9 (2, 101) ∧
        (f.consumer.receiver.tryRecvWith f.consumer.socket).2.2 = .faulted 1 2 102 :=
  ⟨gaps_real (by decide +kernel), by decide +kernel⟩

/-- The receiver follows a sender that restarts from 1, and on its first heartbeat asks for the
numbers 2 to 1000, none of which has been sent; and a fault that a heartbeat has caused is reported
for the numbers 2 to 4 while the call went on to put 3 into the ring. -/
theorem gaps_fail_after_restart :
    ((run step (start 50000000 8) [.restart 999, .send, received 1000 1, .consume .poll, .restart 0,
        .send, received 1 2, .consume .poll, heard 1 3, .consume .poll]).map fun f =>
          (f.sender, f.consumer.receiver.naks)) = some (⟨1, 1⟩, [(2, 999)]) ∧
      ((run step (start 50000000 8) ([.send, .send, .send, .send, received 1 1, .consume .poll] ++
        (Consumer.unanswered 4 2).map .consume ++ [received 3 400000003, .consume .poll])).map
          fun f => ((f.consumer.receiver.tryRecvWith f.consumer.socket).2.2,
            f.consumer.receiver.reorderSeqs (CastReceiver.slotOf 3))) =
        some (.faulted 1 2 4, 3) := by
  decide +kernel

end Feed

end Rsx.Cast
