import Rsx.Cast.Overflow
import Rsx.Matching.Engine

/-!
# The matching loop and its receiver

`cast_loop.rs`: an iteration takes one record from the receiver and hands it to the engine.  A gap
that is reported as Faulted is skipped by a reset of the receiver; Reconnect is taken for an idle
turn, and since only a reset clears it, the loop hears nothing any more.  -/

namespace Rsx.Matching

open Cast Option CastReceiver List

/-- The payload of a record of risk.  `unreadable` is too short or of an unknown type. -/
inductive Request
  | order (msg : OrderMessage)
  | cancel (request : CancelRequest)
  | unreadable

def Engine.handle (e : Engine) (request : Request) (acceptNs publishNs : Nat) : Option Engine :=
  match request with
  | .order msg => e.processOrder msg acceptNs publishNs
  | .cancel request => e.processCancel request publishNs
  | .unreadable => some e

/-- What the loop owns of `LoopState`, and the datagrams that are ready. -/
structure LoopState where
  engine : Engine
  receiver : CastReceiver Request
  socket : List (Arrival Request) := []
  drops : Nat := 0

inductive LoopAction
  | arrive (a : Arrival Request)
  | receive (acceptNs publishNs : Nat)
  | maintainUsers (nowNs : Nat)
  | cleanup (now : Nat)
  | applyConfig (config : Book.BookConfig) (tsNs configVersion effectiveAtMs : Nat)

namespace LoopState

variable {l l' : LoopState} {action : LoopAction}

/-- What an iteration does with the result of `try_recv_with`. -/
def onResult (l : LoopState) (acceptNs publishNs : Nat) : CastRecvWith Request → Option LoopState
  | .data _ request =>
    (l.engine.handle request acceptNs publishNs).map fun engine => { l with engine := engine }
  | .faulted _ gapStart gapEnd => some { l with
      receiver := l.receiver.resetAfterReplay gapEnd, drops := l.drops + (gapEnd - gapStart + 1) }
  | .reconnect _ => some l
  | .empty => some l

/-- The parts of an iteration.  The housekeeping leaves the receiver alone. -/
def step (l : LoopState) : LoopAction → Option LoopState
  | .arrive a => some { l with socket := l.socket ++ [a] }
  | .receive acceptNs publishNs =>
    let (receiver, socket, result) := l.receiver.tryRecvWith l.socket
    { l with receiver := receiver, socket := socket }.onResult acceptNs publishNs result
  | .maintainUsers nowNs =>
    (l.engine.step (.maintainUsers nowNs)).map fun engine => { l with engine := engine }
  | .cleanup now => (l.engine.step (.cleanup now)).map fun engine => { l with engine := engine }
  | .applyConfig config tsNs configVersion effectiveAtMs =>
    (l.engine.step (.applyConfig config tsNs configVersion effectiveAtMs)).map
      fun engine => { l with engine := engine }

def start (engine : Engine) (nakDebounceNs maxNakRetries : Nat) : LoopState where
  engine := engine
  receiver := { nakDebounceNs := nakDebounceNs, maxNakRetries := maxNakRetries }

end LoopState

def Sticky (r : CastReceiver Request) : Prop :=
  r.faulted = true ∨ r.needsReconnect = true

def isSticky : CastRecvWith Request → Bool
  | .faulted .. => true
  | .reconnect _ => true
  | _ => false

namespace LoopState

variable {l l' : LoopState} {action : LoopAction}
  {r : CastReceiver Request} {a : Arrival Request} {socket : List (Arrival Request)}
  {last seq : Nat}

/-- A record ahead of the expected one finds its ring slot free, or a copy of itself. -/
def HasRoom (r : CastReceiver Request) (a : Arrival Request) : Prop :=
  match a.datagram with
  | .data seq total _ => seq = 0 ∨ seq ≤ (r.sync seq).expectedSeq ∨ reorderFrameBytes < total ∨
      (r.sync seq).reorderSeqs (slotOf seq) = 0 ∨
      (r.sync seq).reorderSeqs (slotOf seq) = seq
  | _ => True

instance (r : CastReceiver Request) (a : Arrival Request) : Decidable (HasRoom r a) := by
  unfold HasRoom
  split <;> infer_instance

def Room (l : LoopState) : LoopAction → Prop
  | .receive .. => l.receiver.CallReads HasRoom l.socket
  | _ => True

instance (l : LoopState) (action : LoopAction) : Decidable (l.Room action) := by
  cases action <;> unfold Room <;> infer_instance

/-- After an iteration whose call reported a sticky state the receiver is in none. -/
def Cleared (l : LoopState) (action : LoopAction) : Prop :=
  match action with
  | .receive .. => isSticky (l.receiver.tryRecvWith l.socket).2.2 →
      ∀ l' ∈ l.step action, ¬ Sticky l'.receiver
  | _ => True

/-! ## No overflow -/

section

variable (hopen : r.needsReconnect = false)
include hopen

theorem open_onDatagram (hroom : HasRoom r a) : (r.onDatagram a).1.needsReconnect = false := by
  unfold HasRoom at hroom
  unfold onDatagram
  cases hd : a.datagram with
  | discarded => exact hopen
  | heartbeat => exact (needsReconnect_maybeNak _ _).trans hopen
  | data seq total request =>
    rw [hd] at hroom
    dsimp only at hroom ⊢
    have hsync : (r.sync seq).needsReconnect = false :=
      (needsReconnect_sync r seq).trans hopen
    rcases eq_or_ne seq 0 with rfl | hseq
    · exact hopen
    · rcases onData_sync (r := r) hseq total request a.nowNs with
        ⟨-, heq⟩ | ⟨-, heq⟩ | ⟨hahead, heq⟩
      · rw [heq]
        exact hsync
      · rw [heq]
        exact hsync
      · have hfree : ¬ ((r.sync seq).see seq).Conflict seq total := by
          rintro ⟨_, htaken, hother⟩
          rcases hroom with h0 | hle | hlong | hslot | hslot
          · exact hseq h0
          · omega
          · omega
          · exact htaken hslot
          · exact hother hslot
        rw [heq, buffer_of_not_conflict hfree, needsReconnect_maybeNak, needsReconnect_keep]
        exact hsync

theorem open_recvLoop (hreads : Reads HasRoom r socket) :
    (r.recvLoop socket).1.needsReconnect = false := by
  induction socket generalizing r with
  | nil =>
    unfold recvLoop drain
    dsimp only
    split_ifs
    · cases r.reorderFrames (slotOf r.expectedSeq) <;> exact hopen
    · exact hopen
  | cons a socket ih =>
    have hone := open_onDatagram hopen hreads.1
    unfold recvLoop
    cases hresult : (r.onDatagram a).2 with
    | some => exact hone
    | none => exact ih hone (hreads.2 (by rw [hresult]; rfl))

theorem open_tryRecvWith (hreads : r.CallReads HasRoom socket) :
    (r.tryRecvWith socket).1.needsReconnect = false := by
  rcases r.tryRecvWith_cases socket with ⟨hreconnect, -⟩ | ⟨-, heq⟩ | ⟨hboth, heq⟩
  · cases hopen.symm.trans hreconnect
  · rw [heq]
    exact hopen
  · rw [heq]
    exact open_recvLoop hopen (hreads hboth)

end

theorem reconnect_tryRecvWith (h : (r.tryRecvWith socket).2.2 = .reconnect last) :
    (r.tryRecvWith socket).1.needsReconnect = true := by
  rcases r.tryRecvWith_cases socket with ⟨hreconnect, heq⟩ | ⟨-, heq⟩ | ⟨-, heq⟩ <;>
    rw [heq] at h ⊢
  · exact hreconnect
  · cases h
  · have hstands := r.stands_recvLoop socket
    rwa [h] at hstands

/-! ## Iterations -/

section

variable (hopen : l.receiver.needsReconnect = false)
include hopen

theorem open_step (hroom : l.Room action)
    (hstep : l.step action = some l') : l'.receiver.needsReconnect = false := by
  cases action with
  | arrive =>
    cases hstep
    exact hopen
  | receive =>
    have hnext := open_tryRecvWith hopen hroom
    unfold step at hstep
    dsimp only at hstep
    cases hresult : (l.receiver.tryRecvWith l.socket).2.2 with
    | empty =>
      rw [hresult] at hstep
      cases hstep
      exact hnext
    | data =>
      rw [hresult] at hstep
      obtain ⟨engine, -, rfl⟩ := map_eq_some_iff.1 hstep
      exact hnext
    | faulted =>
      rw [hresult] at hstep
      cases hstep
      rfl
    | reconnect =>
      rw [hresult] at hstep
      cases hstep
      exact hnext
  | maintainUsers | cleanup =>
    rw [step] at hstep
    obtain ⟨engine, -, rfl⟩ := map_eq_some_iff.1 hstep
    exact hopen
  | applyConfig =>
    rw [step] at hstep
    obtain ⟨_, -, rfl⟩ := map_eq_some_iff.1 hstep
    exact hopen

theorem cleared_receive (hroom : l.Room action) : l.Cleared action := by
  cases action with
  | receive =>
    intro hsticky l' hstep
    have hnext := open_tryRecvWith hopen hroom
    rw [step] at hstep
    dsimp only at hstep
    cases hresult : (l.receiver.tryRecvWith l.socket).2.2 with
    | empty | data =>
      rw [hresult] at hsticky
      cases hsticky
    | faulted =>
      rw [hresult] at hstep
      cases hstep
      rintro (hf | hr)
      · cases hf
      · cases hr
    | reconnect =>
      rw [reconnect_tryRecvWith hresult] at hnext
      cases hnext
  | arrive | maintainUsers | cleanup | applyConfig => exact trivial

theorem receive_of_faulted (hfaulted : l.receiver.faulted = true) (acceptNs publishNs : Nat) :
    ∃ l', l.step (.receive acceptNs publishNs) = some l' ∧ ¬ Sticky l'.receiver ∧
      l'.engine = l.engine ∧ l'.socket = l.socket := by
  have hcall : l.receiver.tryRecvWith l.socket =
      (l.receiver, l.socket, l.receiver.faultedResult) := by
    unfold tryRecvWith
    rw [if_neg (by simp [hopen]), if_pos hfaulted]
  unfold step
  rw [hcall]
  refine ⟨_, rfl, ?_, rfl, rfl⟩
  rintro (hf | hr)
  · cases hf
  · cases hr

end

/-- Records with consecutive numbers, each with its length and the time it is read. -/
def contiguous : Nat → List (Request × Nat × Nat) → List (Arrival Request)
  | _, [] => []
  | seq, (request, total, nowNs) :: records =>
    ⟨.data seq total request, nowNs⟩ :: contiguous (seq + 1) records

theorem receive_next {total nowNs : Nat} {request : Request}
    (hsticky : ¬ Sticky l.receiver) (hpos : 0 < seq)
    (hnext : l.receiver.expectedSeq = 0 ∨ seq = l.receiver.expectedSeq)
    (hsocket : l.socket = ⟨.data seq total request, nowNs⟩ :: socket) (acceptNs publishNs : Nat) :
    l.step (.receive acceptNs publishNs) =
      (l.engine.handle request acceptNs publishNs).map fun engine =>
        { l with
          engine := engine, receiver := (l.receiver.sync seq).accept seq, socket := socket } := by
  have hsync : (l.receiver.sync seq).expectedSeq = seq := by
    unfold sync
    rcases hnext with h0 | hdue
    · simp [h0]
    · have h0 : l.receiver.expectedSeq ≠ 0 := by omega
      simp [h0, hdue]
  have hdata : l.receiver.onDatagram ⟨.data seq total request, nowNs⟩ =
      ((l.receiver.sync seq).accept seq, some (.data seq request)) := by
    rcases onData_sync (r := l.receiver) hpos.ne' total request nowNs with
      ⟨_, -⟩ | ⟨-, heq⟩ | ⟨hgt, -⟩
    · omega
    · exact heq
    · omega
  have hcall : l.receiver.tryRecvWith l.socket =
      ((l.receiver.sync seq).accept seq, socket, .data seq request) := by
    unfold tryRecvWith
    rw [if_neg fun hr => hsticky (.inr hr), if_neg fun hf => hsticky (.inl hf), hsocket,
      recvLoop, hdata]
  unfold step
  rw [hcall]
  rfl

/-- **Contiguous records.**  Every record that follows is handed to the engine, one an iteration. -/
theorem run_contiguous (acceptNs publishNs : Nat) {records : List (Request × Nat × Nat)}
    (hsticky : ¬ Sticky l.receiver) (hpos : 0 < seq)
    (hnext : l.receiver.expectedSeq = 0 ∨ seq = l.receiver.expectedSeq)
    (hsocket : l.socket = contiguous seq records ++ socket) :
    (run step l (replicate records.length (.receive acceptNs publishNs))).map
        (fun l' => (l'.engine, l'.socket)) =
      (run (fun e (record : Request × Nat × Nat) => e.handle record.1 acceptNs publishNs) l.engine
        records).map fun engine => (engine, socket) := by
  induction records generalizing l seq with
  | nil =>
    rw [contiguous, nil_append] at hsocket
    rw [length_nil, replicate_zero, run, run, map_some, map_some, hsocket]
  | cons record records ih =>
    obtain ⟨request, _, _⟩ := record
    rw [length_cons, replicate_succ, run, run,
      receive_next hsticky hpos hnext hsocket acceptNs publishNs]
    cases hengine : l.engine.handle request acceptNs publishNs with
    | none => rfl
    | some =>
      refine ih ?_ (Nat.succ_pos seq) (.inr rfl) rfl
      rintro (hf | hr)
      · refine hsticky (.inl ?_)
        obtain ⟨_, _, hframe⟩ := l.receiver.sync_frame seq
        have hsame : ((l.receiver.sync seq).accept seq).faulted = l.receiver.faulted := by
          rw [hframe]
          rfl
        exact hsame ▸ hf
      · refine hsticky (.inr ?_)
        exact (needsReconnect_sync l.receiver seq) ▸ hr

/-- **The loop hears.**  In every run in which each record ahead of the expected one finds its ring
slot free or a copy of itself, an iteration whose call reported a sticky state ends in none; the
fault that a heartbeat leaves is cleared by the next iteration; and otherwise records with the
numbers that are due are handed to the engine, one an iteration. -/
theorem loop_hears (engine : Engine) (nakDebounceNs maxNakRetries : Nat) {actions : List LoopAction}
    (hroom : Along step Room (start engine nakDebounceNs maxNakRetries) actions) :
    Along step Cleared (start engine nakDebounceNs maxNakRetries) actions ∧
      ∀ l ∈ run step (start engine nakDebounceNs maxNakRetries) actions, ∀ acceptNs publishNs,
        (Sticky l.receiver → ∃ l', l.step (.receive acceptNs publishNs) = some l' ∧
          ¬ Sticky l'.receiver ∧ l'.engine = l.engine ∧ l'.socket = l.socket) ∧
        (¬ Sticky l.receiver → ∀ seq records socket, 0 < seq →
          (l.receiver.expectedSeq = 0 ∨ seq = l.receiver.expectedSeq) →
          l.socket = contiguous seq records ++ socket →
          (run step l (List.replicate records.length (.receive acceptNs publishNs))).map
              (fun l' => (l'.engine, l'.socket)) =
            (run (fun e (record : Request × Nat × Nat) => e.handle record.1 acceptNs publishNs)
              l.engine records).map fun engine => (engine, socket)) := by
  have hinvariant : ∀ {l : LoopState} {action l'}, l.receiver.needsReconnect = false →
      l.Room action → l.step action = some l' → l'.receiver.needsReconnect = false :=
    fun hopen hok hstep => open_step hopen hok hstep
  refine ⟨Along.of_invariant hinvariant (fun hopen hok => cleared_receive hopen hok) rfl hroom, ?_⟩
  intro l hl acceptNs publishNs
  have hopen := run_invariant hinvariant rfl hroom hl
  refine ⟨fun hsticky => ?_, fun hsticky seq records socket hpos hnext hsocket => ?_⟩
  · refine receive_of_faulted hopen (hsticky.resolve_right fun hr => ?_) acceptNs publishNs
    exact Bool.false_ne_true (hopen.symm.trans hr)
  · exact run_contiguous acceptNs publishNs hsticky hpos hnext hsocket

/-- The heartbeat shows that 2 and 3 are lost; with no retry left that is a fault. -/
theorem loop_hears_afterFault :
    let actions : List LoopAction :=
      [.arrive ⟨.data 1 64 .unreadable, 1⟩, .receive 1 1, .arrive ⟨.heartbeat 3, 2⟩, .receive 2 2]
    ∃ l, run step (start (Engine.new ⟨1, 1, 1⟩ 8) 1 0) actions = some l ∧ Sticky l.receiver ∧
      ∃ l', l.step (.receive 3 3) = some l' ∧ ¬ Sticky l'.receiver := by
  intro actions
  obtain ⟨l, hl⟩ : ∃ l, run step (start (Engine.new ⟨1, 1, 1⟩ 8) 1 0) actions = some l :=
    isSome_iff_exists.1 (by decide)
  have hsticky : Sticky l.receiver := by
    have hall : (run step (start (Engine.new ⟨1, 1, 1⟩ 8) 1 0) actions).any
        (fun l => l.receiver.faulted) := by decide
    rw [hl] at hall
    exact .inl hall
  obtain ⟨l', hl', hclear, -⟩ :=
    ((loop_hears (Engine.new ⟨1, 1, 1⟩ 8) 1 0 (by decide)).2 l hl 3 3).1 hsticky
  exact ⟨l, hl, hsticky, l', hl', hclear⟩

theorem run_deaf (hdeaf : l.receiver.needsReconnect = true) (acceptNs publishNs n : Nat) :
    run step l (replicate n (.receive acceptNs publishNs)) = some l := by
  have hstep : l.step (.receive acceptNs publishNs) = some l := by
    unfold step tryRecvWith
    rw [if_pos hdeaf]
    rfl
  induction n with
  | zero => rfl
  | succ n ih =>
    rw [replicate_succ, run, hstep]
    exact ih

/-- Record 2 is lost, 2051 meets 3 in its slot; the copy of 2 that then comes is never read. -/
theorem loop_stays_deaf : ∃ l, run step (start (Engine.new ⟨1, 1, 1⟩ 8) 1 5)
        [.arrive ⟨.data 1 64 .unreadable, 1⟩, .receive 1 1,
          .arrive ⟨.data 3 64 .unreadable, 2⟩, .arrive ⟨.data 2051 64 .unreadable, 3⟩, .receive 2 2,
          .arrive ⟨.data 2 64 (.cancel { userId := 1 }), 4⟩] = some l ∧
      l.receiver.expectedSeq = 2 ∧ l.socket = contiguous 2 [(.cancel { userId := 1 }, 64, 4)] ∧
      ∀ acceptNs publishNs n, run step l (List.replicate n (.receive acceptNs publishNs)) =
        some l := by
  refine ⟨_, rfl, rfl, rfl, fun acceptNs publishNs n => run_deaf ?_ acceptNs publishNs n⟩
  decide

end LoopState

end Rsx.Matching
