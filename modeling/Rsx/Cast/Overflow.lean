import Rsx.Cast.Consumer

/-!
# Overflow of the reorder ring

A record ahead of the expected one goes to the ring slot of its number, and a slot that another
number holds is an overflow.  It is a real one, of a record a whole ring ahead of the expected one,
as long as the ring holds only numbers of the window that starts there.  Three things break the
window: a record that is delivered from the socket leaves its copy in the ring, a record far ahead
is put into a free slot, and the ring is not drained while the socket has datagrams.  -/

namespace Rsx.Cast

open Function CastReceiver

namespace CastReceiver

variable {α : Type} {r : CastReceiver α} {a : Arrival α} {socket : List (Arrival α)}
  {seq total : Nat} {r' : CastReceiver α}

def HoldsNext (r : CastReceiver α) : Prop :=
  r.reorderSeqs (slotOf r.expectedSeq) = r.expectedSeq
  deriving Decidable

/-- The expected number is not delivered from the socket while the ring has it, and a record a whole
ring ahead finds its slot taken and the expected number missing. -/
def Orderly (r : CastReceiver α) (a : Arrival α) : Prop :=
  match a.datagram with
  | .data seq total _ => seq = 0 ∨ (seq = (r.sync seq).expectedSeq → ¬ (r.sync seq).HoldsNext) ∧
      ((r.sync seq).expectedSeq + reorderCapacity ≤ seq → total ≤ reorderFrameBytes →
        (r.sync seq).reorderSeqs (slotOf seq) ≠ 0 ∧ ¬ (r.sync seq).HoldsNext)
  | _ => True

instance (r : CastReceiver α) (a : Arrival α) : Decidable (r.Orderly a) :=
  decidableOfData (fun _ _ _ => _) a.datagram

def EntersReconnect (r : CastReceiver α) (a : Arrival α) : Prop :=
  r.needsReconnect = false ∧ (r.onDatagram a).1.needsReconnect = true

/-- The datagram is a record at least a ring ahead of the expected one, which is missing, and the
slot holds a number that is still due. -/
def RealOverflow (r : CastReceiver α) (a : Arrival α) : Prop :=
  ∃ seq total record, a.datagram = .data seq total record ∧ ¬ (r.onDatagram a).1.HoldsNext ∧
    (r.onDatagram a).1.expectedSeq + reorderCapacity ≤ seq ∧
    (r.onDatagram a).1.expectedSeq ≤ (r.onDatagram a).1.reorderSeqs (slotOf seq)

/-! ## The window -/

/-- The ring holds numbers of the window that starts at the expected one, each in its slot. -/
structure Windowed (r : CastReceiver α) : Prop where
  window : ∀ slot, r.reorderSeqs slot ≠ 0 → slotOf (r.reorderSeqs slot) = slot ∧
    r.expectedSeq ≤ r.reorderSeqs slot ∧ r.reorderSeqs slot < r.expectedSeq + reorderCapacity
  unstarted : r.expectedSeq = 0 → ∀ slot, r.reorderSeqs slot = 0

theorem windowed_of_empty (h : ∀ slot, r.reorderSeqs slot = 0) : Windowed r :=
  ⟨fun slot hne => absurd (h slot) hne, fun _ => h⟩

theorem Windowed.of_eq (h : Windowed r) (hring : r'.reorderSeqs = r.reorderSeqs)
    (hexpected : r'.expectedSeq = r.expectedSeq) : Windowed r' := by
  constructor
  · rw [hring, hexpected]
    exact h.window
  · rw [hring, hexpected]
    exact h.unstarted

@[simp] theorem reorderSeqs_fault (r : CastReceiver α) (gapStart gapEnd : Nat) :
    (r.fault gapStart gapEnd).reorderSeqs = r.reorderSeqs := by
  unfold fault
  split_ifs <;> rfl

@[simp] theorem reorderSeqs_maybeNak (r : CastReceiver α) (nowNs : Nat) :
    (r.maybeNak nowNs).reorderSeqs = r.reorderSeqs := by
  unfold maybeNak
  split_ifs
  · rfl
  · cases r.oldestMissingRun with
    | none => rfl
    | some =>
      dsimp only
      split_ifs
      · rfl
      · rw [reorderSeqs_fault]
      · rfl

theorem Windowed.sync (h : Windowed r) (seq : Nat) : Windowed (r.sync seq) := by
  unfold CastReceiver.sync
  dsimp only
  split_ifs with h0
  · exact windowed_of_empty fun _ => rfl
  · exact windowed_of_empty (h.unstarted h0)
  · exact windowed_of_empty fun _ => rfl
  · exact h

theorem Windowed.advance (h : Windowed r) (hnext : ¬ r.HoldsNext)
    (hring : r'.reorderSeqs = r.reorderSeqs) (hexpected : r'.expectedSeq = r.expectedSeq + 1) :
    Windowed r' := by
  refine ⟨fun slot hne => ?_, fun h0 => by omega⟩
  rw [hring] at hne ⊢
  obtain ⟨hslot, _, _⟩ := h.window slot hne
  have hother : r.reorderSeqs slot ≠ r.expectedSeq := by
    intro heq
    rw [heq] at hslot
    rw [← hslot] at heq
    exact hnext heq
  omega

theorem eq_of_slotOf {first seq' : Nat} (hslot : slotOf seq = slotOf seq')
    (h : first ≤ seq ∧ seq < first + reorderCapacity)
    (h' : first ≤ seq' ∧ seq' < first + reorderCapacity) : seq = seq' := by
  unfold slotOf reorderCapacity at *
  omega

theorem Windowed.keep (h : Windowed r) (hpos : r.expectedSeq ≠ 0) (hle : r.expectedSeq ≤ seq)
    (hlt : total ≤ reorderFrameBytes → seq < r.expectedSeq + reorderCapacity) (record : α) :
    Windowed (r.keep seq total record) := by
  unfold CastReceiver.keep
  split_ifs with hsmall
  · refine ⟨fun slot hne => ?_, fun h0 => absurd h0 hpos⟩
    dsimp only at hne ⊢
    rcases eq_or_ne slot (slotOf seq) with rfl | hother
    · rw [update_self]
      exact ⟨rfl, hle, hlt hsmall⟩
    · rw [update_of_ne hother] at hne ⊢
      exact h.window slot hne
  · exact h

/-! ## One datagram -/

def Conflict (r : CastReceiver α) (seq total : Nat) : Prop :=
  total ≤ reorderFrameBytes ∧ r.reorderSeqs (slotOf seq) ≠ 0 ∧ r.reorderSeqs (slotOf seq) ≠ seq

theorem buffer_of_conflict (h : r.Conflict seq total) (record : α) (nowNs : Nat) :
    (r.buffer seq total record nowNs).1.reorderSeqs = r.reorderSeqs ∧
      (r.buffer seq total record nowNs).1.expectedSeq = r.expectedSeq := by
  unfold Conflict at h
  unfold buffer
  rw [if_pos h]
  split_ifs <;> exact ⟨rfl, rfl⟩

theorem buffer_of_not_conflict (h : ¬ r.Conflict seq total) (record : α) (nowNs : Nat) :
    (r.buffer seq total record nowNs).1 = (r.keep seq total record).maybeNak nowNs := by
  unfold Conflict at h
  unfold buffer
  rw [if_neg h]

/-- The receiver is in the state that the result reports. -/
def Stands (r : CastReceiver α) : CastRecvWith α → Prop
  | .faulted last gapStart gapEnd =>
    r.faulted = true ∧ r.faultedResult = .faulted last gapStart gapEnd
  | .reconnect _ => r.needsReconnect = true
  | _ => True

theorem stands_buffer (r : CastReceiver α) (seq total : Nat) (record : α) (nowNs : Nat) :
    ∀ result ∈ (r.buffer seq total record nowNs).2,
      (r.buffer seq total record nowNs).1.Stands result := by
  unfold buffer
  dsimp only
  split_ifs with hconflict hreconnect hfaulted <;> rintro _ ⟨⟩
  · exact hreconnect
  · rfl
  · exact ⟨hfaulted, rfl⟩

theorem Windowed.buffer (h : Windowed r) (hpos : r.expectedSeq ≠ 0)
    (hahead : r.expectedSeq < seq) (record : α) (nowNs : Nat)
    (hfar : r.expectedSeq + reorderCapacity ≤ seq → total ≤ reorderFrameBytes →
      r.reorderSeqs (slotOf seq) ≠ 0 ∧ ¬ r.HoldsNext) :
    Windowed (r.buffer seq total record nowNs).1 ∧
      (r.needsReconnect = false → (r.buffer seq total record nowNs).1.needsReconnect = true →
        ¬ (r.buffer seq total record nowNs).1.HoldsNext ∧
          (r.buffer seq total record nowNs).1.expectedSeq + reorderCapacity ≤ seq ∧
          (r.buffer seq total record nowNs).1.expectedSeq ≤
            (r.buffer seq total record nowNs).1.reorderSeqs (slotOf seq)) := by
  by_cases hconflict : r.Conflict seq total
  · obtain ⟨hring, hexpected⟩ := buffer_of_conflict hconflict record nowNs
    obtain ⟨hsmall, hne, hother⟩ := hconflict
    obtain ⟨hslot, hle, hlt⟩ := h.window (slotOf seq) hne
    have hwindow : r.expectedSeq + reorderCapacity ≤ seq := by
      by_contra hnear
      exact hother (eq_of_slotOf hslot ⟨hle, hlt⟩ ⟨hahead.le, Nat.lt_of_not_le hnear⟩)
    refine ⟨h.of_eq hring hexpected, fun _ _ => ?_⟩
    rw [HoldsNext, hring, hexpected]
    exact ⟨(hfar hwindow hsmall).2, hwindow, hle⟩
  · have hbuffer := buffer_of_not_conflict hconflict record nowNs
    have hnear : total ≤ reorderFrameBytes → seq < r.expectedSeq + reorderCapacity := by
      intro hsmall
      by_contra hnot
      have htaken := (hfar (Nat.le_of_not_lt hnot) hsmall).1
      have hsame : r.reorderSeqs (slotOf seq) = seq := by
        by_contra hother
        exact hconflict ⟨hsmall, htaken, hother⟩
      have hlt := (h.window (slotOf seq) htaken).2.2
      omega
    have hkept := h.keep hpos hahead.le hnear record
    rw [hbuffer]
    refine ⟨hkept.of_eq (reorderSeqs_maybeNak _ _) (expectedSeq_maybeNak _ _),
      fun hopen henter => ?_⟩
    rw [needsReconnect_maybeNak, needsReconnect_keep, hopen] at henter
    exact absurd henter Bool.false_ne_true

theorem sync_expectedSeq_ne_zero (hseq : seq ≠ 0) : (r.sync seq).expectedSeq ≠ 0 := by
  unfold sync
  dsimp only
  split_ifs with h0 <;> first | exact hseq | exact h0

@[simp] theorem needsReconnect_sync (r : CastReceiver α) (seq : Nat) :
    (r.sync seq).needsReconnect = r.needsReconnect := by
  unfold sync
  dsimp only
  split_ifs <;> rfl

theorem sync_frame (r : CastReceiver α) (seq : Nat) :
    ∃ expected ring, r.sync seq = { r with expectedSeq := expected, reorderSeqs := ring } := by
  unfold sync
  dsimp only
  split_ifs <;> exact ⟨_, _, rfl⟩

theorem onData_sync (hseq : seq ≠ 0) (total : Nat) (record : α) (nowNs : Nat) :
    seq < (r.sync seq).expectedSeq ∧ r.onData seq total record nowNs = (r.sync seq, none) ∨
    seq = (r.sync seq).expectedSeq ∧
      r.onData seq total record nowNs = ((r.sync seq).accept seq, some (.data seq record)) ∨
    (r.sync seq).expectedSeq < seq ∧
      r.onData seq total record nowNs = ((r.sync seq).see seq).buffer seq total record nowNs := by
  unfold onData
  rw [if_neg hseq]
  rcases lt_trichotomy seq (r.sync seq).expectedSeq with hlt | heq | hgt
  · exact .inl ⟨hlt, if_pos hlt⟩
  · refine .inr (.inl ⟨heq, ?_⟩)
    have hexpected : ((r.sync seq).see seq).expectedSeq = seq := heq.symm
    rw [if_neg heq.not_lt, if_pos hexpected.symm, hexpected]
    rfl
  · refine .inr (.inr ⟨hgt, ?_⟩)
    have hne : seq ≠ ((r.sync seq).see seq).expectedSeq := hgt.ne'
    rw [if_neg hgt.not_gt, if_neg hne]

theorem stands_onDatagram (r : CastReceiver α) (a : Arrival α) :
    ∀ result ∈ (r.onDatagram a).2, (r.onDatagram a).1.Stands result := by
  unfold onDatagram
  cases a.datagram with
  | discarded | heartbeat => rintro _ ⟨⟩
  | data seq total record =>
    dsimp only
    rcases eq_or_ne seq 0 with rfl | hseq
    · rintro _ ⟨⟩
    · rcases onData_sync (r := r) hseq total record a.nowNs with ⟨-, heq⟩ | ⟨-, heq⟩ | ⟨-, heq⟩ <;>
        rw [heq]
      · rintro _ ⟨⟩
      · rintro _ ⟨⟩
        exact trivial
      · exact stands_buffer _ _ _ _ _

theorem stands_recvLoop (r : CastReceiver α) (socket : List (Arrival α)) :
    (r.recvLoop socket).1.Stands (r.recvLoop socket).2.2 := by
  induction socket generalizing r with
  | nil =>
    unfold recvLoop drain
    dsimp only
    split_ifs
    · cases r.reorderFrames (slotOf r.expectedSeq) <;> exact trivial
    · exact trivial
  | cons a socket ih =>
    unfold recvLoop
    cases hresult : (r.onDatagram a).2 with
    | some result => exact r.stands_onDatagram a result hresult
    | none => exact ih _

/-- **One datagram.** -/
theorem Windowed.onDatagram (h : Windowed r) (horderly : r.Orderly a) :
    Windowed (r.onDatagram a).1 ∧ (r.EntersReconnect a → r.RealOverflow a) := by
  unfold EntersReconnect RealOverflow
  unfold Orderly at horderly
  unfold CastReceiver.onDatagram
  cases hd : a.datagram with
  | discarded =>
    refine ⟨h, fun henter => ?_⟩
    exact absurd (henter.1.symm.trans henter.2) Bool.false_ne_true
  | heartbeat highestSeq =>
    refine ⟨?_, fun henter => ?_⟩
    · have hsee : Windowed (r.see highestSeq) := h.of_eq rfl rfl
      exact hsee.of_eq (reorderSeqs_maybeNak _ _) (expectedSeq_maybeNak _ _)
    · rw [needsReconnect_maybeNak] at henter
      exact absurd (henter.1.symm.trans henter.2) Bool.false_ne_true
  | data seq total record =>
    rw [hd] at horderly
    dsimp only at horderly ⊢
    rcases eq_or_ne seq 0 with rfl | hseq
    · refine ⟨h, fun henter => ?_⟩
      exact absurd (henter.1.symm.trans henter.2) Bool.false_ne_true
    · obtain ⟨hdirect, hfar⟩ := horderly.resolve_left hseq
      have hsync := h.sync seq
      rcases onData_sync (r := r) hseq total record a.nowNs with
        ⟨-, heq⟩ | ⟨hnext, heq⟩ | ⟨hahead, heq⟩
      · rw [heq]
        refine ⟨hsync, fun henter => ?_⟩
        rw [needsReconnect_sync] at henter
        exact absurd (henter.1.symm.trans henter.2) Bool.false_ne_true
      · rw [heq]
        refine ⟨hsync.advance (hdirect hnext) rfl (congrArg (· + 1) hnext), fun henter => ?_⟩
        have hsame : ((r.sync seq).accept seq).needsReconnect = r.needsReconnect :=
          needsReconnect_sync r seq
        exact absurd (henter.1.symm.trans (hsame.symm.trans henter.2)) Bool.false_ne_true
      · rw [heq]
        have hsee : Windowed ((r.sync seq).see seq) := hsync.of_eq rfl rfl
        obtain ⟨hwindowed, hreal⟩ :=
          hsee.buffer (sync_expectedSeq_ne_zero hseq) hahead record a.nowNs hfar
        refine ⟨hwindowed, fun henter => ⟨seq, total, record, rfl, hreal ?_ henter.2⟩⟩
        exact (needsReconnect_sync r seq).trans henter.1

/-! ## Calls and runs -/

theorem Windowed.drain (h : Windowed r) : Windowed r.drain.1 := by
  unfold CastReceiver.drain
  dsimp only
  split_ifs with hnext
  · cases r.reorderFrames (slotOf r.expectedSeq) with
    | none => exact h
    | some =>
      refine ⟨fun slot hne => ?_, fun h0 => absurd h0 (Nat.succ_ne_zero _)⟩
      dsimp only at hne ⊢
      rcases eq_or_ne slot (slotOf r.expectedSeq) with rfl | hother
      · rw [update_self] at hne
        exact absurd rfl hne
      · rw [update_of_ne hother] at hne ⊢
        obtain ⟨hslot, _, _⟩ := h.window slot hne
        have hpassed : r.reorderSeqs slot ≠ r.expectedSeq := by
          intro heq
          rw [heq] at hslot
          exact hother hslot.symm
        omega
  · exact h

theorem Windowed.recvLoop (h : Windowed r) (hreads : Reads Orderly r socket) :
    Windowed (r.recvLoop socket).1 ∧
      Reads (fun r a => r.EntersReconnect a → r.RealOverflow a) r socket := by
  induction socket generalizing r with
  | nil => exact ⟨h.drain, trivial⟩
  | cons a socket ih =>
    obtain ⟨hwindowed, hreal⟩ := h.onDatagram hreads.1
    unfold recvLoop
    cases hresult : (r.onDatagram a).2 with
    | some =>
      refine ⟨hwindowed, hreal, fun hnone => ?_⟩
      rw [hresult] at hnone
      cases hnone
    | none =>
      obtain ⟨hrest, hreads'⟩ := ih hwindowed (hreads.2 (by rw [hresult]; rfl))
      exact ⟨hrest, hreal, fun _ => hreads'⟩

theorem Windowed.tryRecvWith (h : Windowed r) (hreads : CallReads Orderly r socket) :
    Windowed (r.tryRecvWith socket).1 ∧
      CallReads (fun r a => r.EntersReconnect a → r.RealOverflow a) r socket := by
  rcases r.tryRecvWith_cases socket with ⟨hreconnect, heq⟩ | ⟨hfaulted, heq⟩ | ⟨hopen, heq⟩ <;>
    rw [heq]
  · exact ⟨h, fun hopen => absurd (hopen.1.symm.trans hreconnect) Bool.false_ne_true⟩
  · exact ⟨h, fun hopen => absurd (hopen.2.symm.trans hfaulted) Bool.false_ne_true⟩
  · obtain ⟨hwindowed, hall⟩ := h.recvLoop (hreads hopen)
    exact ⟨hwindowed, fun _ => hall⟩

end CastReceiver

namespace Consumer

variable {α : Type} {c c' : Consumer α} {action : Action α}

def Orderly (c : Consumer α) : Action α → Prop
  | .poll => c.receiver.CallReads CastReceiver.Orderly c.socket
  | _ => True

instance (c : Consumer α) : ∀ a, Decidable (c.Orderly a)
  | .poll => inferInstanceAs (Decidable (c.receiver.CallReads ..))
  | .arrive _ | .resetAfterReplay _ => isTrue trivial

/-- The receiver enters the Reconnect state only on a real overflow. -/
def OverflowsReal (c : Consumer α) : Action α → Prop
  | .poll => c.receiver.CallReads (fun r a => r.EntersReconnect a → r.RealOverflow a) c.socket
  | _ => True

theorem receiver_handle (c : Consumer α) (result : CastRecvWith α) :
    (c.handle result).receiver = c.receiver := by
  cases result <;> rfl

theorem windowed_step (h : c.receiver.Windowed) (horderly : c.Orderly action)
    (hstep : c.step action = some c') : c'.receiver.Windowed := by
  cases action with
  | arrive =>
    cases hstep
    exact h
  | poll =>
    cases hstep
    rw [receiver_handle]
    exact (h.tryRecvWith horderly).1
  | resetAfterReplay =>
    cases hstep
    exact CastReceiver.windowed_of_empty fun _ => rfl

/-- **Real overflows.**  As long as the expected number is not delivered from the socket while the
ring has it, and a record a whole ring ahead finds its slot taken and the expected number missing,
the receiver enters the Reconnect state only on a real overflow. -/
theorem reconnect_real {nakDebounceNs maxNakRetries : Nat} {actions : List (Action α)}
    (horderly : Along step Orderly (start nakDebounceNs maxNakRetries) actions) :
    Along step OverflowsReal (start nakDebounceNs maxNakRetries) actions := by
  refine Along.of_invariant (I := fun c : Consumer α => c.receiver.Windowed)
    (fun h hok hstep => windowed_step h hok hstep) (fun {c action} h hok => ?_)
    (CastReceiver.windowed_of_empty fun _ => rfl) horderly
  cases action with
  | arrive => exact trivial
  | poll => exact (h.tryRecvWith hok).2
  | resetAfterReplay => exact trivial

/-- Number 2 is missing, number 3 waits, and 2051 overtakes the whole ring. -/
def ringAhead : List (Action Nat) :=
  [datagram 1 1, .poll, datagram 3 2, .poll, datagram 2051 3]

theorem reconnect_real_ringAhead : ∃ c, run step (start 50000000 8) ringAhead = some c ∧
      (c.receiver.tryRecvWith c.socket).2.2 = .reconnect 1 ∧ c.OverflowsReal .poll := by
  have hall := @reconnect_real Nat 50000000 8 (ringAhead ++ [.poll]) (by decide +kernel)
  exact exists_run (P := fun c => (c.receiver.tryRecvWith c.socket).2.2 = .reconnect 1)
    (by decide +kernel) fun c hrun hresult => ⟨hresult, (hall.of_append.2 c hrun).1⟩

/-- A copy of number 3 stays in the ring when another copy is delivered from the socket, and 2051,
2047 numbers ahead, overflows on it; number 3 overflows on 2051, which was put into the ring before
it; and 2051 overflows while number 3, the expected one, waits in the ring. -/
theorem reconnect_fails :
    ((run step (start 50000000 8) [datagram 1 1, .poll, datagram 3 2, .poll, datagram 2 3,
        datagram 3 4, .poll, .poll, datagram 2051 5, .poll]).map fun c =>
          (c.report, c.receiver.expectedSeq, c.receiver.reorderSeqs 3)) = some (some 3, 4, 3) ∧
      ((run step (start 50000000 8) [datagram 1 1, .poll, datagram 2051 2, .poll, datagram 3 3,
        .poll]).map fun c =>
          (c.report, c.receiver.expectedSeq, c.receiver.reorderSeqs 3)) = some (some 1, 2, 2051) ∧
      ((run step (start 50000000 8) [datagram 1 1, .poll, datagram 3 2, .poll, datagram 2 3, .poll,
        datagram 2051 4, .poll]).map fun c =>
          (c.report, c.receiver.expectedSeq, c.receiver.reorderSeqs 3)) = some (some 2, 3, 3) := by
  decide +kernel

end Consumer

end Rsx.Cast
