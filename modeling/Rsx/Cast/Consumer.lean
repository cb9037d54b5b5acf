import Rsx.Cast.Delivery

/-!
# Ordered delivery

A consumer polls the receiver while datagrams arrive in any order, any number of times or never.
After a fault it replays what follows the reported number and resets the receiver.
-/

namespace Rsx.Cast

open List CastReceiver

/-- `handed` are the records the callback was given since the last reset, `applied` the sequence
numbers applied so far, from the callback or from a replay, `report` the `last_delivered_seq` of the
fault that the last call reported, and `tip` the tip of the last reset. -/
structure Consumer (α : Type) where
  receiver : CastReceiver α
  socket : List (Arrival α) := []
  handed : List (Nat × α) := []
  applied : List Nat := []
  report : Option Nat := none
  tip : Option Nat := none

inductive Action (α : Type)
  | arrive (a : Arrival α)
  | poll
  | resetAfterReplay (newTip : Nat)

namespace Consumer

variable {α : Type}
  {first last base : Nat} {a : Action α} {c : Consumer α} {receiver : CastReceiver α}
  {result : CastRecvWith α} {socket : List (Arrival α)}

def start (nakDebounceNs maxNakRetries : Nat) : Consumer α :=
  { receiver := { nakDebounceNs := nakDebounceNs, maxNakRetries := maxNakRetries } }

def handle (c : Consumer α) : CastRecvWith α → Consumer α
  | .empty => { c with report := none }
  | .data seq record => { c with
      handed := c.handed ++ [(seq, record)], applied := c.applied ++ [seq], report := none }
  | .faulted last _ _ => { c with report := some last }
  | .reconnect last => { c with report := some last }

def replayed (c : Consumer α) (newTip : Nat) : List Nat :=
  match c.report with
  | some last => range' (last + 1) (newTip - last)
  | none => []

def step (c : Consumer α) : Action α → Option (Consumer α)
  | .arrive a => some { c with socket := c.socket ++ [a] }
  | .poll =>
    let (receiver, socket, result) := c.receiver.tryRecvWith c.socket
    some ({ c with receiver := receiver, socket := socket }.handle result)
  | .resetAfterReplay newTip => some { c with
      receiver := c.receiver.resetAfterReplay newTip
      handed := []
      applied := c.applied ++ c.replayed newTip
      report := none
      tip := some newTip }

/-- No datagram that is read trails the expected number by more than 100. -/
def Timely (c : Consumer α) : Action α → Prop
  | .poll => c.receiver.CallReads CastReceiver.Timely c.socket
  | _ => True

/-- Besides, a call that has been faulted by a heartbeat reads no datagram with the expected
number. -/
def Calm (c : Consumer α) : Action α → Prop
  | .poll => c.receiver.CallReads (fun r a => r.Timely a ∧ r.Calm a) c.socket
  | _ => True

/-- The receiver is reset only after a fault, to a tip that the replay has reached. -/
def Disciplined (c : Consumer α) : Action α → Prop
  | .resetAfterReplay newTip => ∃ last ∈ c.report, last ≤ newTip
  | _ => True

instance (c : Consumer α) (a : Action α) : Decidable (c.Timely a) := by
  cases a <;> unfold Timely <;> infer_instance

instance (c : Consumer α) (a : Action α) : Decidable (c.Calm a) := by
  cases a <;> unfold Calm <;> infer_instance

instance (c : Consumer α) (a : Action α) : Decidable (c.Disciplined a) := by
  cases a <;> unfold Disciplined <;> infer_instance

/-! ## Consecutive numbers -/

/-- The numbers handed over since the last reset are consecutive from `first` on, and the receiver
expects the next one; `first` is zero as long as the stream has not started. -/
structure Consecutive (c : Consumer α) (first : Nat) : Prop where
  seqs : c.handed.map Prod.fst = range' first c.handed.length
  expected : c.receiver.expectedSeq = first + c.handed.length
  unstarted : first = 0 → c.handed = []
  tip : c.handed = [] → first ≠ 0 → c.tip = some (first - 1)

theorem Consecutive.of_idle {c c' : Consumer α} (h : c.Consecutive first)
    (hhanded : c'.handed = c.handed) (htip : c'.tip = c.tip)
    (hexpected : c'.receiver.expectedSeq = c.receiver.expectedSeq) : c'.Consecutive first := by
  refine ⟨?_, ?_, ?_, ?_⟩
  · rw [hhanded]
    exact h.seqs
  · rw [hexpected, hhanded]
    exact h.expected
  · rw [hhanded]
    exact h.unstarted
  · rw [hhanded, htip]
    exact h.tip

theorem Consecutive.delivered {c c' : Consumer α} {seq : Nat} {record : α}
    (h : c.Consecutive first) (hhanded : c'.handed = c.handed ++ [(seq, record)])
    (hseq : c.receiver.expectedSeq = 0 ∨ seq = c.receiver.expectedSeq) (hpos : 0 < seq)
    (hexpected : c'.receiver.expectedSeq = seq + 1) : ∃ first, c'.Consecutive first := by
  have hne : c'.handed ≠ [] := by
    rw [hhanded]
    exact append_ne_nil_of_right_ne_nil _ (cons_ne_nil _ _)
  rcases eq_or_ne first 0 with hfirst | hfirst
  · -- The first record starts the stream, wherever it is.
    have hnil := h.unstarted hfirst
    rw [hnil] at hhanded
    refine ⟨seq, ?_, ?_, fun h0 => absurd h0 hpos.ne', fun h0 => absurd h0 hne⟩
    · rw [hhanded]
      rfl
    · rw [hexpected, hhanded]
      rfl
  · have hlast : seq = first + c.handed.length := by
      have := h.expected
      omega
    refine ⟨first, ?_, ?_, fun h0 => absurd h0 hfirst, fun h0 => absurd h0 hne⟩
    · rw [hhanded, map_append, h.seqs, length_append, length_singleton, range'_1_concat, hlast]
      rfl
    · rw [hexpected, hhanded, length_append, length_singleton, hlast, Nat.add_assoc]

theorem Consecutive.handle (h : c.Consecutive first)
    (hadvances : c.receiver.Advances (some result) receiver) :
    ∃ first, ({ c with receiver := receiver, socket := socket }.handle result).Consecutive
      first := by
  cases result with
  | empty => exact ⟨first, h.of_idle rfl rfl hadvances⟩
  | data =>
    obtain ⟨hseq, hpos, hexpected⟩ := hadvances
    exact h.delivered rfl hseq hpos hexpected
  | faulted | reconnect => exact ⟨first, h.of_idle rfl rfl hadvances⟩

theorem consecutive_reset {c' : Consumer α} {newTip : Nat} (hhanded : c'.handed = [])
    (htip : c'.tip = some newTip) (hexpected : c'.receiver.expectedSeq = newTip + 1) :
    c'.Consecutive (newTip + 1) := by
  refine ⟨?_, ?_, fun h0 => absurd h0 (Nat.succ_ne_zero _), fun _ _ => htip⟩
  · rw [hhanded]
    rfl
  · rw [hexpected, hhanded]
    rfl

theorem Consecutive.step {c c' : Consumer α} (h : ∃ first, c.Consecutive first)
    (htimely : c.Timely a) (hstep : c.step a = some c') : ∃ first, c'.Consecutive first := by
  obtain ⟨first, h⟩ := h
  cases a with
  | arrive =>
    cases hstep
    exact ⟨first, h.of_idle rfl rfl rfl⟩
  | poll =>
    cases hstep
    exact h.handle (CastReceiver.advances_tryRecvWith htimely)
  | resetAfterReplay newTip =>
    cases hstep
    exact ⟨newTip + 1, consecutive_reset rfl rfl rfl⟩

theorem consecutive_start (nakDebounceNs maxNakRetries : Nat) :
    (start nakDebounceNs maxNakRetries : Consumer α).Consecutive 0 :=
  ⟨rfl, rfl, fun _ => rfl, fun _ h0 => absurd rfl h0⟩

/-- **Ordered delivery.**  As long as no datagram trails the expected number by more than 100, the
numbers handed to the callback since the last reset are consecutive. -/
theorem handed_consecutive {nakDebounceNs maxNakRetries : Nat} {actions : List (Action α)}
    {c : Consumer α} (htimely : Along step Timely (start nakDebounceNs maxNakRetries) actions)
    (hrun : run step (start nakDebounceNs maxNakRetries) actions = some c) :
    ∃ first, c.handed.map Prod.fst = List.range' first c.handed.length := by
  obtain ⟨first, h⟩ := run_invariant (I := fun c : Consumer α => ∃ first, c.Consecutive first)
    (fun h htimely hstep => Consecutive.step h htimely hstep) ⟨0, consecutive_start _ _⟩
      htimely hrun
  exact ⟨first, h.seqs⟩

def datagram (seq nowNs : Nat) : Action Nat :=
  .arrive ⟨.data seq 80 seq, nowNs⟩

def inOrder : List (Action Nat) :=
  (range' 1 102).flatMap fun seq => [datagram seq seq, .poll]

/-- A duplicate of the first record that arrives after 102 others is delivered again. -/
theorem handed_fails_late_duplicate :
    (run step (start 50000000 8) (inOrder ++ [datagram 1 103, .poll])).map
      (fun c => c.handed.map Prod.fst) = some (List.range' 1 102 ++ [1]) := by
  decide +kernel

/-- Number 4 overtakes 3, 2 is delivered twice, and the ring is drained. -/
def overtaken : List (Action Nat) :=
  [datagram 2 1, .poll, datagram 4 2, datagram 2 3, .poll, datagram 3 4, .poll, .poll]

theorem handed_consecutive_overtaken :
    ∃ c, run step (start 50000000 8) overtaken = some c ∧ c.handed.map Prod.fst = [2, 3, 4] ∧
      ∃ first, c.handed.map Prod.fst = List.range' first c.handed.length := by
  exact exists_run (P := fun c => c.handed.map Prod.fst = [2, 3, 4]) (by decide +kernel)
    fun c hrun hhanded => ⟨hhanded, handed_consecutive (by decide +kernel) hrun⟩

/-! ## Exact reports -/

structure Reports (c : Consumer α) : Prop where
  receiver : c.receiver.Reporting
  report : ∀ last ∈ c.report, last + 1 = c.receiver.expectedSeq

theorem Calm.timely (hcalm : c.Calm a) : c.Timely a := by
  cases a with
  | poll => exact fun hopen => (hcalm hopen).imp fun _ _ h => h.1
  | arrive | resetAfterReplay => exact trivial

theorem reports_of_none (h : c.receiver.Reporting) (hnone : c.report = none) : c.Reports := by
  refine ⟨h, fun last hlast => ?_⟩
  rw [hnone] at hlast
  exact absurd hlast (Option.not_mem_none last)

theorem reports_of_some (h : c.receiver.Reporting)
    (hsome : c.report = some last) (hlast : last + 1 = c.receiver.expectedSeq) : c.Reports := by
  refine ⟨h, fun last' hlast' => ?_⟩
  rw [hsome] at hlast'
  obtain rfl := Option.some.inj hlast'
  exact hlast

theorem reports_handle (c : Consumer α) (h : c.receiver.Reporting)
    (hnames : NamesLast (some result) c.receiver) : (c.handle result).Reports := by
  cases result with
  | empty | data => exact reports_of_none h rfl
  | faulted | reconnect => exact reports_of_some h rfl hnames

theorem Reports.step {c c' : Consumer α} (h : c.Reports) (hcalm : c.Calm a)
    (hstep : c.step a = some c') : c'.Reports := by
  cases a with
  | arrive =>
    cases hstep
    exact ⟨h.receiver, h.report⟩
  | poll =>
    cases hstep
    obtain ⟨hreporting, hnames⟩ := h.receiver.tryRecvWith hcalm
    exact reports_handle _ hreporting hnames
  | resetAfterReplay =>
    cases hstep
    apply reports_of_none _ rfl
    exact ⟨fun hf => absurd hf Bool.false_ne_true, fun hr => absurd hr Bool.false_ne_true⟩

theorem reports_start (nakDebounceNs maxNakRetries : Nat) :
    (start nakDebounceNs maxNakRetries : Consumer α).Reports :=
  reports_of_none
    ⟨fun hf => absurd hf Bool.false_ne_true, fun hr => absurd hr Bool.false_ne_true⟩ rfl

/-- What a report says: the last number handed over, or the tip of the last reset when nothing has
been handed over since, and no higher number has been handed over. -/
def Names (c : Consumer α) (last : Nat) : Prop :=
  (c.handed.map Prod.fst).getLast?.or c.tip = some last ∧ ∀ x ∈ c.handed, x.1 ≤ last

theorem Consecutive.names (h : c.Consecutive first)
    (hlast : last + 1 = c.receiver.expectedSeq) : c.Names last := by
  have hexpected := h.expected
  rcases eq_nil_or_concat c.handed with hnil | ⟨before, x, hconcat⟩
  · have htip : c.tip = some (first - 1) := by
      apply h.tip hnil
      rw [hnil, length_nil] at hexpected
      omega
    rw [hnil, length_nil] at hexpected
    have hfirst : first - 1 = last := by omega
    refine ⟨?_, fun x hx => ?_⟩
    · rw [hnil, htip, hfirst]
      rfl
    · rw [hnil] at hx
      exact absurd hx not_mem_nil
  · have hlength : c.handed.length = before.length + 1 := by
      rw [hconcat, concat_eq_append, length_append, length_singleton]
    have hend : (c.handed.map Prod.fst).getLast? = some last := by
      rw [h.seqs, hlength, range'_1_concat, getLast?_concat]
      congr 1
      omega
    refine ⟨by rw [hend]; rfl, fun x hx => ?_⟩
    have hmem : x.1 ∈ range' first c.handed.length := by
      rw [← h.seqs]
      exact mem_map_of_mem hx
    have hbound := (mem_range'_1.1 hmem).2
    omega

/-! ## Every record once -/

/-- The numbers applied so far are consecutive and end before the expected one. -/
structure Applies (c : Consumer α) (base : Nat) : Prop where
  seqs : c.applied = range' base c.applied.length
  unstarted : c.receiver.expectedSeq = 0 → c.applied = []
  expected : c.receiver.expectedSeq ≠ 0 → base + c.applied.length = c.receiver.expectedSeq

theorem Applies.of_idle {c c' : Consumer α} (h : c.Applies base) (happlied : c'.applied = c.applied)
    (hexpected : c'.receiver.expectedSeq = c.receiver.expectedSeq) : c'.Applies base := by
  refine ⟨?_, ?_, ?_⟩
  · rw [happlied]
    exact h.seqs
  · rw [hexpected, happlied]
    exact h.unstarted
  · rw [hexpected, happlied]
    exact h.expected

theorem Applies.append {c c' : Consumer α} {n : Nat} (h : c.Applies base)
    (happlied : c'.applied = c.applied ++ range' first n)
    (hfirst : c.receiver.expectedSeq = 0 ∨ first = c.receiver.expectedSeq) (hpos : 0 < first)
    (hexpected : c'.receiver.expectedSeq = first + n) : ∃ base, c'.Applies base := by
  have hstarted : c'.receiver.expectedSeq ≠ 0 := by omega
  rcases eq_or_ne c.receiver.expectedSeq 0 with h0 | h0
  · rw [h.unstarted h0, nil_append] at happlied
    refine ⟨first, ?_, fun h0' => absurd h0' hstarted, fun _ => ?_⟩
    · rw [happlied, length_range']
    · rw [happlied, length_range', hexpected]
  · have hnext : base + c.applied.length = first :=
      (h.expected h0).trans (hfirst.resolve_left h0).symm
    have hlength : c'.applied.length = c.applied.length + n := by
      rw [happlied, length_append, length_range']
    refine ⟨base, ?_, fun h0' => absurd h0' hstarted, fun _ => ?_⟩
    · calc c'.applied = range' base c.applied.length ++ range' first n := by
            rw [happlied, ← h.seqs]
        _ = range' base c'.applied.length := by
            rw [hlength, ← hnext, range'_append_1]
    · rw [hlength, hexpected, ← hnext, Nat.add_assoc]

theorem Applies.handle (h : c.Applies base)
    (hadvances : c.receiver.Advances (some result) receiver) :
    ∃ base, ({ c with receiver := receiver, socket := socket }.handle result).Applies base := by
  cases result with
  | empty => exact ⟨base, h.of_idle rfl hadvances⟩
  | data =>
    obtain ⟨hseq, hpos, hexpected⟩ := hadvances
    exact h.append (n := 1) rfl hseq hpos hexpected
  | faulted | reconnect => exact ⟨base, h.of_idle rfl hadvances⟩

theorem Applies.step {c c' : Consumer α} (h : ∃ base, c.Applies base)
    (hreports : c.Reports) (hcalm : c.Calm a) (hdisciplined : c.Disciplined a)
    (hstep : c.step a = some c') : ∃ base, c'.Applies base := by
  obtain ⟨base, h⟩ := h
  cases a with
  | arrive =>
    cases hstep
    exact ⟨base, h.of_idle rfl rfl⟩
  | poll =>
    cases hstep
    exact h.handle (CastReceiver.advances_tryRecvWith hcalm.timely)
  | resetAfterReplay newTip =>
    cases hstep
    obtain ⟨last, hreport, _⟩ := hdisciplined
    have hreplayed : c.replayed newTip = List.range' (last + 1) (newTip - last) := by
      unfold replayed
      rw [Option.mem_def.1 hreport]
    have htip : newTip + 1 = last + 1 + (newTip - last) := by omega
    exact h.append (congrArg (c.applied ++ ·) hreplayed)
      (.inr (hreports.report last hreport)) (Nat.succ_pos _) htip

/-- **Exact reports.**  As long as no datagram trails the expected number by more than 100 and none
is delivered after a heartbeat has faulted the receiver, a report names the last number handed over,
and a consumer that replays from there before each reset applies consecutive numbers. -/
theorem report_exact {nakDebounceNs maxNakRetries : Nat} {actions : List (Action α)}
    {c : Consumer α} (hcalm : Along step Calm (start nakDebounceNs maxNakRetries) actions)
    (hrun : run step (start nakDebounceNs maxNakRetries) actions = some c) :
    (∀ last ∈ c.report, c.Names last) ∧
      (Along step Disciplined (start nakDebounceNs maxNakRetries) actions →
        ∃ base, c.applied = List.range' base c.applied.length) := by
  constructor
  · intro last hlast
    obtain ⟨⟨first, h⟩, hreports⟩ := run_invariant
      (I := fun c : Consumer α => (∃ first, c.Consecutive first) ∧ c.Reports)
      (fun h hcalm hstep => ⟨Consecutive.step h.1 hcalm.timely hstep, h.2.step hcalm hstep⟩)
      ⟨⟨0, consecutive_start _ _⟩, reports_start _ _⟩ hcalm hrun
    exact h.names (hreports.report last hlast)
  · intro hdisciplined
    obtain ⟨⟨base, h⟩, -⟩ := run_invariant
      (I := fun c : Consumer α => (∃ base, c.Applies base) ∧ c.Reports)
      (fun h hok hstep => ⟨Applies.step h.1 h.2 hok.1 hok.2 hstep, h.2.step hok.1 hstep⟩)
      ⟨⟨0, rfl, fun _ => rfl, fun h0 => absurd rfl h0⟩, reports_start _ _⟩
      (hcalm.and hdisciplined) hrun
    exact ⟨base, h.seqs⟩

/-- Heartbeats, one debounce window apart, announce a number that does not arrive; each is polled
but the last, which is the ninth. -/
def unanswered (highestSeq nowNs : Nat) : List (Action Nat) :=
  ((range 8).flatMap fun k =>
    [.arrive ⟨.heartbeat highestSeq, nowNs + k * 50000000⟩, .poll]) ++
    [.arrive ⟨.heartbeat highestSeq, nowNs + 400000000⟩]

/-- The call that reads the last heartbeat goes on to deliver number 2, and the next one reports
number 1 as the last delivered. -/
theorem report_fails_after_heartbeat :
    (run step (start 50000000 8) ([datagram 1 1, .poll] ++ unanswered 2 2 ++
      [datagram 2 400000003, .poll, .poll])).map
        (fun c => (c.report, c.handed.map Prod.fst)) = some (some 1, [1, 2]) := by
  decide +kernel

def twoFaults : List (Action Nat) :=
  [datagram 1 1, .poll] ++ unanswered 2 2 ++
    [.poll, .poll, .resetAfterReplay 2, datagram 3 500000000, .poll] ++ unanswered 4 500000001 ++
    [.poll, .poll]

theorem report_exact_twoFaults :
    ∃ c, run step (start 50000000 8) twoFaults = some c ∧ c.report = some 3 ∧ c.Names 3 ∧
      c.applied = [1, 2, 3] ∧ ∃ base, c.applied = List.range' base c.applied.length := by
  refine exists_run (P := fun c => c.report = some 3 ∧ c.applied = [1, 2, 3]) (by decide +kernel) ?_
  rintro c hrun ⟨hreport, happlied⟩
  have hexact := report_exact (by decide +kernel) hrun
  exact ⟨hreport, hexact.1 3 hreport, happlied, hexact.2 (by decide +kernel)⟩

end Consumer

end Rsx.Cast
