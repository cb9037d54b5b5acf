import Rsx.Cast.Receiver
import Rsx.Lib.Run

/-!
# What one call of the receiver does

A call moves the expected sequence number only by delivering it, as long as no datagram is taken for
a restart of the sender.  The number that a fault holds is the one before the expected one as long
as, besides, nothing is delivered after a heartbeat has faulted the receiver.
-/

namespace Rsx.Cast

open Function

namespace CastReceiver

variable {α : Type} {r : CastReceiver α} {a : Arrival α} {socket : List (Arrival α)}
  {seq : Nat}

/-! ## One datagram -/

/-- A datagram that is not taken for a restart of the sender. -/
def Timely (r : CastReceiver α) (a : Arrival α) : Prop :=
  match a.datagram with
  | .data seq _ _ => seq = 0 ∨ r.expectedSeq ≤ seq + 100
  | _ => True

/-- A datagram that is not delivered by a receiver that has faulted. -/
def Calm (r : CastReceiver α) (a : Arrival α) : Prop :=
  match a.datagram with
  | .data seq _ _ => r.faulted → seq ≠ r.expectedSeq
  | _ => True

/-- What is asked of a record is decidable for every datagram. -/
def decidableOfData (P : Nat → Nat → α → Prop)
    [∀ seq total record, Decidable (P seq total record)] :
    ∀ d : Datagram α, Decidable (match d with
      | .data seq total record => P seq total record
      | _ => True)
  | .data seq total record => inferInstanceAs (Decidable (P seq total record))
  | .discarded | .heartbeat .. => isTrue trivial

instance (r : CastReceiver α) (a : Arrival α) : Decidable (r.Timely a) :=
  decidableOfData (fun _ _ _ => _) a.datagram

instance (r : CastReceiver α) (a : Arrival α) : Decidable (r.Calm a) :=
  decidableOfData (fun _ _ _ => _) a.datagram

/-- Every datagram that the call reads meets `P` in the state it is read in. -/
def Reads (P : CastReceiver α → Arrival α → Prop) : CastReceiver α → List (Arrival α) → Prop
  | _, [] => True
  | r, a :: socket => P r a ∧ ((r.onDatagram a).2.isNone → Reads P (r.onDatagram a).1 socket)

instance decidableReads (P : CastReceiver α → Arrival α → Prop) [∀ r a, Decidable (P r a)]
    (r : CastReceiver α) (socket : List (Arrival α)) : Decidable (Reads P r socket) :=
  match socket with
  | [] => .isTrue trivial
  | a :: socket =>
    have := decidableReads P (r.onDatagram a).1 socket
    inferInstanceAs (Decidable (P r a ∧
      ((r.onDatagram a).2.isNone → Reads P (r.onDatagram a).1 socket)))

theorem Reads.imp {P Q : CastReceiver α → Arrival α → Prop} (hreads : Reads P r socket)
    (hPQ : ∀ r a, P r a → Q r a) : Reads Q r socket := by
  induction socket generalizing r with
  | nil => exact trivial
  | cons a socket ih => exact ⟨hPQ r a hreads.1, fun hnone => ih (hreads.2 hnone)⟩

def Advances (r : CastReceiver α) (result : Option (CastRecvWith α)) (r' : CastReceiver α) : Prop :=
  match result with
  | some (.data seq _) =>
    (r.expectedSeq = 0 ∨ seq = r.expectedSeq) ∧ 0 < seq ∧ r'.expectedSeq = seq + 1
  | _ => r'.expectedSeq = r.expectedSeq

@[simp] theorem expectedSeq_fault (r : CastReceiver α) (gapStart gapEnd : Nat) :
    (r.fault gapStart gapEnd).expectedSeq = r.expectedSeq := by
  unfold fault
  split_ifs <;> rfl

@[simp] theorem expectedSeq_maybeNak (r : CastReceiver α) (nowNs : Nat) :
    (r.maybeNak nowNs).expectedSeq = r.expectedSeq := by
  unfold maybeNak
  split_ifs
  · rfl
  · cases r.oldestMissingRun with
    | none => rfl
    | some =>
      simp only
      split_ifs
      · rfl
      · rw [expectedSeq_fault]
      · rfl

theorem sync_of_near (hnear : r.expectedSeq ≤ seq + 100) :
    r.sync seq = if r.expectedSeq = 0 then { r with expectedSeq := seq } else r := by
  unfold sync
  by_cases h0 : r.expectedSeq = 0
  · rw [if_pos h0]
    exact if_neg fun h => absurd h.1 (lt_irrefl _)
  · rw [if_neg h0]
    exact if_neg fun h => by omega

def accept (r : CastReceiver α) (seq : Nat) : CastReceiver α :=
  { r with
    highestSeen := max r.highestSeen seq
    expectedSeq := seq + 1
    nakRetriesOnOldest := 0
    nakSentAt := update r.nakSentAt (slotOf seq) 0 }

theorem onData_cases (htimely : seq = 0 ∨ r.expectedSeq ≤ seq + 100) (total : Nat)
    (record : α) (nowNs : Nat) :
    r.onData seq total record nowNs = (r, none) ∨
      ((r.expectedSeq = 0 ∨ seq = r.expectedSeq) ∧ 0 < seq ∧
        r.onData seq total record nowNs = (r.accept seq, some (.data seq record))) ∨
      (r.expectedSeq ≠ 0 ∧ r.expectedSeq < seq ∧
        r.onData seq total record nowNs = (r.see seq).buffer seq total record nowNs) := by
  unfold onData
  by_cases hzero : seq = 0
  · exact .inl (if_pos hzero)
  · rw [if_neg hzero, sync_of_near (htimely.resolve_left hzero)]
    have hpos : 0 < seq := Nat.pos_of_ne_zero hzero
    by_cases h0 : r.expectedSeq = 0
    · rw [if_pos h0]
      refine .inr (.inl ⟨.inl h0, hpos, ?_⟩)
      exact (if_neg (lt_irrefl seq)).trans (if_pos rfl)
    · rw [if_neg h0]
      rcases lt_trichotomy seq r.expectedSeq with hlt | heq | hgt
      · exact .inl (if_pos hlt)
      · refine .inr (.inl ⟨.inr heq, hpos, ?_⟩)
        have hexpected : (r.see seq).expectedSeq = seq := heq.symm
        refine (if_neg heq.not_lt).trans ((if_pos heq).trans ?_)
        rw [hexpected]
        rfl
      · refine .inr (.inr ⟨h0, hgt, ?_⟩)
        exact (if_neg hgt.not_gt).trans (if_neg hgt.ne')

@[simp] theorem expectedSeq_keep (r : CastReceiver α) (seq total : Nat) (record : α) :
    (r.keep seq total record).expectedSeq = r.expectedSeq := by
  unfold keep
  split_ifs <;> rfl

@[simp] theorem needsReconnect_keep (r : CastReceiver α) (seq total : Nat) (record : α) :
    (r.keep seq total record).needsReconnect = r.needsReconnect := by
  unfold keep
  split_ifs <;> rfl

theorem advances_buffer (r : CastReceiver α) (seq total : Nat) (record : α) (nowNs : Nat) :
    r.Advances (r.buffer seq total record nowNs).2 (r.buffer seq total record nowNs).1 := by
  unfold buffer
  simp only
  by_cases hconflict : total ≤ reorderFrameBytes ∧ r.reorderSeqs (slotOf seq) ≠ 0 ∧
      r.reorderSeqs (slotOf seq) ≠ seq
  · split_ifs <;> rfl
  · split_ifs <;> exact (expectedSeq_maybeNak _ _).trans (expectedSeq_keep _ _ _ _)

theorem advances_onDatagram (htimely : r.Timely a) :
    r.Advances (r.onDatagram a).2 (r.onDatagram a).1 := by
  unfold Timely at htimely
  unfold onDatagram
  cases hd : a.datagram with
  | discarded => rfl
  | heartbeat => exact expectedSeq_maybeNak _ _
  | data seq total record =>
    rw [hd] at htimely
    simp only
    rcases onData_cases htimely total record a.nowNs with h | ⟨heq, hpos, h⟩ | ⟨-, -, h⟩
    · rw [h]
      rfl
    · rw [h]
      exact ⟨heq, hpos, rfl⟩
    · rw [h]
      exact advances_buffer (r.see seq) seq total record a.nowNs

/-! ## One call -/

theorem advances_drain (r : CastReceiver α) : r.Advances (some r.drain.2) r.drain.1 := by
  unfold drain
  simp only
  split_ifs with h
  · cases r.reorderFrames (slotOf r.expectedSeq) with
    | none => rfl
    | some => exact ⟨.inr rfl, Nat.pos_of_ne_zero h.1, rfl⟩
  · rfl

theorem Advances.trans {r₁ r' : CastReceiver α} {result : Option (CastRecvWith α)}
    (h : r₁.expectedSeq = r.expectedSeq) (h' : r₁.Advances result r') : r.Advances result r' := by
  unfold Advances at h' ⊢
  rwa [h] at h'

theorem advances_recvLoop (hreads : Reads Timely r socket) :
    r.Advances (some (r.recvLoop socket).2.2) (r.recvLoop socket).1 := by
  induction socket generalizing r with
  | nil => exact advances_drain r
  | cons a socket ih =>
    have hone := advances_onDatagram hreads.1
    unfold recvLoop
    cases hresult : (r.onDatagram a).2 with
    | some =>
      rw [hresult] at hone
      exact hone
    | none =>
      rw [hresult] at hone
      have hrest := hreads.2 (by rw [hresult]; rfl)
      exact Advances.trans hone (ih hrest)

/-- The datagrams that a call reads meet `P`; a receiver in a sticky state reads none. -/
def CallReads (P : CastReceiver α → Arrival α → Prop) (r : CastReceiver α)
    (socket : List (Arrival α)) : Prop :=
  r.needsReconnect = false ∧ r.faulted = false → Reads P r socket

instance (P : CastReceiver α → Arrival α → Prop) [∀ r a, Decidable (P r a)]
    (r : CastReceiver α) (socket : List (Arrival α)) : Decidable (CallReads P r socket) :=
  inferInstanceAs (Decidable (_ → _))

theorem tryRecvWith_cases (r : CastReceiver α) (socket : List (Arrival α)) :
    (r.needsReconnect = true ∧
      r.tryRecvWith socket = (r, socket, .reconnect r.reconnectLastDeliveredSeq)) ∨
    (r.faulted = true ∧ r.tryRecvWith socket = (r, socket, r.faultedResult)) ∨
    ((r.needsReconnect = false ∧ r.faulted = false) ∧
      r.tryRecvWith socket = r.recvLoop socket) := by
  unfold tryRecvWith
  cases r.needsReconnect <;> cases r.faulted <;> simp

theorem advances_tryRecvWith (hreads : CallReads Timely r socket) :
    r.Advances (some (r.tryRecvWith socket).2.2) (r.tryRecvWith socket).1 := by
  rcases r.tryRecvWith_cases socket with ⟨-, heq⟩ | ⟨-, heq⟩ | ⟨hopen, heq⟩ <;> rw [heq]
  · rfl
  · rfl
  · exact advances_recvLoop (hreads hopen)

/-! ## Faults -/

/-- A sticky state holds the number before the expected one, which is not in the ring. -/
structure Reporting (r : CastReceiver α) : Prop where
  faulted : r.faulted → r.faultLastDeliveredSeq + 1 = r.expectedSeq ∧
    r.reorderSeqs (slotOf r.expectedSeq) ≠ r.expectedSeq
  reconnect : r.needsReconnect → r.reconnectLastDeliveredSeq + 1 = r.expectedSeq

/-- A result that reports a fault names the number before the expected one. -/
def NamesLast (result : Option (CastRecvWith α)) (r' : CastReceiver α) : Prop :=
  match result with
  | some (.faulted last _ _) => last + 1 = r'.expectedSeq
  | some (.reconnect last) => last + 1 = r'.expectedSeq
  | _ => True

theorem oldestMissingRun_eq_some {start count : Nat}
    (h : r.oldestMissingRun = some (start, count)) :
    r.expectedSeq ≠ 0 ∧ r.reorderSeqs (slotOf r.expectedSeq) ≠ r.expectedSeq := by
  unfold oldestMissingRun at h
  split_ifs at h with hnone
  simp only at h
  split_ifs at h with hstop
  refine ⟨fun h0 => hnone (.inl h0), fun hring => hstop ?_⟩
  have hlen : ∃ n,
      min r.highestSeen (r.expectedSeq + reorderCapacity) + 1 - r.expectedSeq = n + 1 :=
    ⟨min r.highestSeen (r.expectedSeq + reorderCapacity) - r.expectedSeq, by omega⟩
  obtain ⟨_, hn⟩ := hlen
  rw [hn, List.range'_succ, List.find?_cons_of_pos (by simpa using hring)]
  rfl

theorem Reporting.maybeNak (h : Reporting r) (nowNs : Nat) : Reporting (r.maybeNak nowNs) := by
  unfold CastReceiver.maybeNak
  by_cases hsticky : r.faulted = true ∨ r.needsReconnect = true
  · rw [if_pos hsticky]
    exact h
  · have hnot : r.faulted = false ∧ r.needsReconnect = false := by
      simpa only [not_or, Bool.not_eq_true] using hsticky
    rw [if_neg hsticky]
    cases hrun : r.oldestMissingRun with
    | none => exact h
    | some =>
      obtain ⟨_, hring⟩ := oldestMissingRun_eq_some hrun
      simp only
      split_ifs
      · exact h
      · unfold fault
        rw [if_neg (by simp [hnot.1])]
        refine ⟨fun _ => ⟨?_, hring⟩, fun hr => ?_⟩
        · show r.expectedSeq - 1 + 1 = r.expectedSeq
          omega
        · exact absurd hr (by simp [hnot.2])
      · exact ⟨fun hf => absurd hf (by simp [hnot.1]), fun hr => absurd hr (by simp [hnot.2])⟩

@[simp] theorem needsReconnect_maybeNak (r : CastReceiver α) (nowNs : Nat) :
    (r.maybeNak nowNs).needsReconnect = r.needsReconnect := by
  unfold maybeNak
  split_ifs
  · rfl
  · cases r.oldestMissingRun with
    | none => rfl
    | some =>
      simp only
      unfold fault
      split_ifs <;> rfl

/-- What one turn of the loop keeps: the sticky states are exact, and so is a report. -/
structure Exact (result : Option (CastRecvWith α)) (r' : CastReceiver α) : Prop where
  reporting : Reporting r'
  names : NamesLast result r'
  open_ : result = none → r'.needsReconnect = false

variable (h : Reporting r)
include h

theorem exact_of_faulted_result (hopen : r.needsReconnect = false) :
    Exact (if r.faulted then some r.faultedResult else none) r := by
  by_cases hf : r.faulted = true
  · rw [if_pos hf]
    exact ⟨h, (h.faulted hf).1, fun hnone => absurd hnone (by simp)⟩
  · rw [if_neg hf]
    exact ⟨h, trivial, fun _ => hopen⟩

theorem Reporting.keep (hne : seq ≠ r.expectedSeq) (total : Nat)
    (record : α) : Reporting (r.keep seq total record) := by
  unfold CastReceiver.keep
  by_cases hsmall : total ≤ reorderFrameBytes
  · rw [if_pos hsmall]
    refine ⟨fun hf => ⟨(h.faulted hf).1, ?_⟩, h.reconnect⟩
    show update r.reorderSeqs (slotOf seq) seq (slotOf r.expectedSeq) ≠ r.expectedSeq
    by_cases hslot : slotOf r.expectedSeq = slotOf seq
    · rw [hslot, update_self]
      exact hne
    · rw [update_of_ne hslot]
      exact (h.faulted hf).2
  · rw [if_neg hsmall]
    exact h

section

variable (hopen : r.needsReconnect = false)
include hopen

theorem Reporting.buffer
    (hpos : r.expectedSeq ≠ 0) (hne : seq ≠ r.expectedSeq) (total : Nat) (record : α)
    (nowNs : Nat) :
    Exact (r.buffer seq total record nowNs).2 (r.buffer seq total record nowNs).1 := by
  unfold CastReceiver.buffer
  by_cases hconflict : total ≤ reorderFrameBytes ∧ r.reorderSeqs (slotOf seq) ≠ 0 ∧
      r.reorderSeqs (slotOf seq) ≠ seq
  · have hlast : r.expectedSeq - 1 + 1 = r.expectedSeq := by omega
    rw [if_pos hconflict]
    simp only [hopen, Bool.false_eq_true, if_false]
    exact ⟨⟨h.faulted, fun _ => hlast⟩, hlast, fun hnone => absurd hnone (by simp)⟩
  · rw [if_neg hconflict]
    exact exact_of_faulted_result ((h.keep hne total record).maybeNak nowNs) (by simpa using hopen)

theorem Reporting.onDatagram (htimely : r.Timely a) (hcalm : r.Calm a) :
    Exact (r.onDatagram a).2 (r.onDatagram a).1 := by
  unfold Timely at htimely
  unfold Calm at hcalm
  unfold CastReceiver.onDatagram
  cases hd : a.datagram with
  | discarded => exact ⟨h, trivial, fun _ => hopen⟩
  | heartbeat highestSeq =>
    have hsee : Reporting (r.see highestSeq) := ⟨h.faulted, h.reconnect⟩
    exact ⟨hsee.maybeNak a.nowNs, trivial, fun _ => (needsReconnect_maybeNak _ _).trans hopen⟩
  | data seq total record =>
    rw [hd] at htimely hcalm
    simp only
    rcases onData_cases htimely total record a.nowNs with heq | ⟨hseq, -, heq⟩ | ⟨hpos, hlt, heq⟩
    · rw [heq]
      exact ⟨h, trivial, fun _ => hopen⟩
    · rw [heq]
      -- A faulted receiver expects a positive number, and this is not it.
      have hcalmed : r.faulted = false := by
        rw [Bool.eq_false_iff]
        intro hf
        have hlast := (h.faulted hf).1
        rcases hseq with h0 | hseq
        · omega
        · exact hcalm hf hseq
      exact ⟨⟨fun hf => absurd hf (by simp [accept, hcalmed]),
        fun hr => absurd hr (by simp [accept, hopen])⟩, trivial,
        fun hnone => absurd hnone (by simp)⟩
    · rw [heq]
      exact Reporting.buffer (r := r.see seq) ⟨h.faulted, h.reconnect⟩ hopen hpos hlt.ne' total
        record a.nowNs

theorem Reporting.drain : Exact (some r.drain.2) r.drain.1 := by
  unfold CastReceiver.drain
  simp only
  split_ifs with hring
  · cases r.reorderFrames (slotOf r.expectedSeq) with
    | none => exact ⟨h, trivial, fun _ => hopen⟩
    | some =>
      refine ⟨⟨fun hf => absurd hring.2 (h.faulted hf).2, fun hr => ?_⟩, trivial, fun _ => hopen⟩
      exact absurd hr (by simp [hopen])
  · exact ⟨h, trivial, fun _ => hopen⟩

theorem Reporting.recvLoop (hreads : Reads (fun r a => r.Timely a ∧ r.Calm a) r socket) :
    Exact (some (r.recvLoop socket).2.2) (r.recvLoop socket).1 := by
  induction socket generalizing r with
  | nil => exact h.drain hopen
  | cons a socket ih =>
    have hone := h.onDatagram hopen hreads.1.1 hreads.1.2
    unfold CastReceiver.recvLoop
    cases hresult : (r.onDatagram a).2 with
    | some =>
      rw [hresult] at hone
      exact hone
    | none => exact ih hone.reporting (hone.open_ hresult) (hreads.2 (by rw [hresult]; rfl))

end

theorem Reporting.tryRecvWith (hreads : CallReads (fun r a => r.Timely a ∧ r.Calm a) r socket) :
    Reporting (r.tryRecvWith socket).1 ∧
      NamesLast (some (r.tryRecvWith socket).2.2) (r.tryRecvWith socket).1 := by
  rcases r.tryRecvWith_cases socket with ⟨hreconnect, heq⟩ | ⟨hfaulted, heq⟩ | ⟨hopen, heq⟩ <;>
    rw [heq]
  · exact ⟨h, h.reconnect hreconnect⟩
  · exact ⟨h, (h.faulted hfaulted).1⟩
  · have hexact := h.recvLoop hopen.1 (hreads hopen)
    exact ⟨hexact.reporting, hexact.names⟩

end CastReceiver

end Rsx.Cast
