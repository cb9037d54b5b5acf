import Rsx.Wal.TornTail

/-!
# The sender of a stream

`CastSender` of `cast.rs` and the log of its stream: a record is framed, appended to the log and
cast, and a NAK is served from a ring of the last frames or from the log on disk.  -/

namespace Rsx.Wal

open Function List

def sendRingFrameBytes : Nat := 128

def sendRingCapacity : Nat := 4096

def packetBufSize : Nat := WalHeader.size + 65535 + 1

def sendSlot (seq : Nat) : Nat :=
  seq % sendRingCapacity

/-- `CastSender`.  The frame of a slot has the length of `ring_lens`. -/
structure CastSender where
  nextSeq : Nat := 1
  ringSeqs : Nat → Nat := fun _ => 0
  ringFrames : Nat → List UInt8 := fun _ => []
  ringLastRetxNs : Nat → Nat := fun _ => 0
  retxDedupWindowNs : Nat

structure Nak where
  fromSeq : Nat
  count : Nat

def Nak.seqs (nak : Nak) : List Nat :=
  (range (min nak.count sendRingCapacity)).map fun i => satU64 (nak.fromSeq + i)

theorem Nak.mem_seqs {nak : Nak} {seq : Nat} (hseq : seq < u64Max) :
    seq ∈ nak.seqs ↔ nak.fromSeq ≤ seq ∧ seq < nak.fromSeq + min nak.count sendRingCapacity := by
  unfold Nak.seqs
  rw [mem_map]
  constructor
  · rintro ⟨_, hi, heq⟩
    rw [mem_range] at hi
    unfold satU64 at heq
    omega
  · rintro ⟨_, _⟩
    refine ⟨seq - nak.fromSeq, mem_range.2 (by omega), ?_⟩
    unfold satU64
    omega

theorem Nak.pairwise_seqs (nak : Nak) :
    nak.seqs.Pairwise fun seq other => sendSlot other ≠ sendSlot seq ∨ seq = u64Max := by
  unfold Nak.seqs
  rw [pairwise_map]
  refine pairwise_lt_range.imp_of_mem fun {i j} hi hj hlt => ?_
  rw [mem_range] at hi hj
  unfold satU64 sendSlot
  unfold sendRingCapacity at *
  omega

/-- What the log and the socket do for one number of a NAK. -/
structure RetxIo where
  read : Bool := true
  send : Bool := true

section

variable [Crc32c] {closed : List (List Framed)} {act : List Framed}

namespace CastSender

variable (s : CastSender)

def store (f : Framed) : CastSender :=
  if f.wire.length ≤ sendRingFrameBytes then
    { s with
      ringSeqs := update s.ringSeqs (sendSlot f.seq) f.seq
      ringFrames := update s.ringFrames (sendSlot f.seq) f.wire }
  else
    { s with
      ringSeqs := update s.ringSeqs (sendSlot f.seq) 0
      ringFrames := update s.ringFrames (sendSlot f.seq) [] }

/-- `send_framed`; `ok` is the result of the socket. -/
def sendFramed (f : Framed) (ok : Bool) : CastSender :=
  let s := s.store f
  if ok then { s with nextSeq := f.seq + 1 } else s

def deduped (seq nowNs : Nat) : Bool :=
  decide (s.ringLastRetxNs (sendSlot seq) ≠ 0 ∧
    nowNs - s.ringLastRetxNs (sendSlot seq) < s.retxDedupWindowNs)

def lookup (dir : WalDir) (seq : Nat) (read : Bool) : Option (List UInt8) :=
  if seq ≠ 0 ∧ s.ringSeqs (sendSlot seq) = seq ∧ 0 < (s.ringFrames (sendSlot seq)).length then
    some (s.ringFrames (sendSlot seq))
  else if !read then none
  else (dir.readRecordAtSeq seq).bind fun r => if packetBufSize < r.total then none else
    some r.bytes

def retransmit (dir : WalDir) (seq nowNs : Nat) (io : RetxIo) : CastSender × Option (List UInt8) :=
  if s.deduped seq nowNs then (s, none)
  else
    match s.lookup dir seq io.read with
    | none => (s, none)
    | some frame =>
      (if io.send then
        { s with ringLastRetxNs := update s.ringLastRetxNs (sendSlot seq) nowNs }
      else s, some frame)

/-- The loop of `handle_nak` over the numbers, with the numbers and frames given to the socket. -/
def retransmitAll (dir : WalDir) (nowNs : Nat) (io : Nat → RetxIo) :
    List Nat → CastSender → CastSender × List (Nat × List UInt8)
  | [], s => (s, [])
  | seq :: seqs, s =>
    let (s, frame) := s.retransmit dir seq nowNs (io seq)
    let (s, rest) := retransmitAll dir nowNs io seqs s
    (s, frame.toList.map (seq, ·) ++ rest)

end CastSender

def CastSender.handleNak (s : CastSender) (dir : WalDir) (nak : Nak) (nowNs : Nat)
    (io : Nat → RetxIo) : CastSender × List (Nat × List UInt8) :=
  s.retransmitAll dir nowNs io nak.seqs

/-- A stream with its log and its sender.  `sent` and `resent` are not state of the program: the
records that this sender has cast, and the numbers that it has retransmitted, with the times. -/
structure CastStream where
  wal : WalState
  sender : CastSender
  sent : List Framed := []
  resent : List (Nat × Nat) := []

inductive CastAction
  | cast (record : CastRecord) (ok : Bool)
  | retry (ok : Bool)
  | flush (io : FlushIo)
  | nak (nak : Nak) (nowNs : Nat) (io : Nat → RetxIo)
  | restart (cut : Nat)

namespace CastStream

/-- A record that is offered to the log is cast when the log has taken it. -/
def offer (s : CastStream) (f : Framed) (ok : Bool) : CastStream :=
  let wal := s.wal.offer f
  if (s.wal.writer.appendFramed f).isSome then
    { s with wal := wal, sender := s.sender.sendFramed f ok, sent := s.sent ++ [f] }
  else { s with wal := wal }

/-- `fan_out` of the matching engine for one of its peers, `EgressStream::forward` of risk: a record
is numbered, appended, after as many flushes as that takes, and cast.  A restart cuts the active
file. -/
def step (s : CastStream) : CastAction → Option CastStream
  | .cast record ok =>
    match s.wal.stalled with
    | some _ => none
    | none => (s.wal.writer.prepare record).map fun (w, f) =>
      { s with wal := { s.wal with writer := w } }.offer f ok
  | .retry ok => s.wal.stalled.map fun f => s.offer f ok
  | .flush io => some { s with wal := (s.wal.flush io).1 }
  | .nak nak nowNs io =>
    let (sender, frames) := s.sender.handleNak s.wal.dir nak nowNs io
    some { s with
      sender := sender
      resent := s.resent ++ (frames.filter fun frame => (io frame.1).send).map (·.1, nowNs) }
  | .restart cut => (s.wal.crash cut).map fun wal =>
    { wal := wal, sender := { retxDedupWindowNs := s.sender.retxDedupWindowNs } }

def start (maxFileSize retxDedupWindowNs : Nat) : CastStream where
  wal := .start maxFileSize
  sender := { retxDedupWindowNs := retxDedupWindowNs }

end CastStream

/-! ## Reading one record -/

section Lookup

variable {fs gs : List Framed} {targetSeq : Nat}

omit [Crc32c] in
theorem find?_eq_none_of_not_mem (h : ∀ f ∈ fs, f.seq ≠ targetSeq) :
    fs.find? (fun f => f.seq = targetSeq) = none :=
  find?_eq_none.2 fun f hf => by simpa using h f hf

theorem pickFileForSeq_closed {tail : List UInt8}
    {active : Option (List UInt8)} (hne : ∀ fs ∈ closed, fs ≠ [])
    (hascending : Ascending (closed.flatten ++ act)) (htorn : Torn Framed.wire tail)
    (hactive : active.getD [] = encode act ++ tail) :
    (pickFileForSeq ((closed.map segmentOf).map SegmentFile.info ++ active.toList.map activeInfo)
        targetSeq).bind (fun f => scanFileForSeq f.bytes targetSeq) =
      ((closed.flatten ++ act).find? fun f => f.seq = targetSeq).map Framed.raw := by
  unfold pickFileForSeq
  induction closed with
  | nil =>
    cases active with
    | none =>
      have hact : act = [] := encode_eq_nil.1 (append_eq_nil_iff.1 hactive.symm).1
      rw [hact]
      rfl
    | some bytes =>
      have hbytes : bytes = encode act ++ tail := hactive
      rw [hbytes]
      exact scanFileForSeq_encode htorn hascending.right targetSeq
  | cons gs closed ih =>
    rw [flatten_cons, append_assoc] at hascending ⊢
    have hgs : gs ≠ [] := hne gs mem_cons_self
    rw [map_cons, map_cons, cons_append]
    by_cases hcovers : (segmentOf gs).firstSeq ≤ targetSeq ∧ targetSeq ≤ (segmentOf gs).lastSeq
    · have hscan := scanFileForSeq_encode (.inl rfl) hascending.left targetSeq
      rw [append_nil] at hscan
      have hlater : (closed.flatten ++ act).find? (fun f => f.seq = targetSeq) = none := by
        refine find?_eq_none_of_not_mem fun f hf heq => ?_
        obtain ⟨_, hlast, _⟩ := lastSeq_mem hgs
        have := hascending.lt hlast hf
        omega
      rw [find?_cons_of_pos, find?_append, hlater, Option.or_none]
      · exact hscan
      · exact decide_eq_true hcovers
    · have hother : gs.find? (fun f => f.seq = targetSeq) = none :=
        find?_eq_none_of_not_mem fun f hf heq => hcovers (heq ▸ hascending.left.covers hf)
      rw [find?_cons_of_neg, find?_cons_of_neg Bool.false_ne_true,
        ih (fun fs hfs => hne fs (.tail gs hfs)) hascending.right, eq_comm]
      · rw [find?_append, hother, Option.none_or]
      · exact fun hpick => hcovers (of_decide_eq_true hpick)

end Lookup

/-- **One record.**  The log finds exactly the records that are whole on disk. -/
theorem Stored.readRecordAtSeq {s : WalState} {pend : List Framed}
    {extra : List UInt8} (h : Stored s closed act pend extra) (targetSeq : Nat) :
    s.dir.readRecordAtSeq targetSeq =
      (s.whole.find? fun f => f.seq = targetSeq).map Framed.raw := by
  obtain ⟨kept, _, hfile, htorn, hascending, hwhole⟩ := h.split h.active_isPrefix
  change s.whole = closed.flatten ++ kept at hwhole
  have hlist : s.dir.listWalFiles = (closed.map segmentOf).map SegmentFile.info ++
      s.dir.active.toList.map activeInfo := by
    have hdir : s.dir = ⟨closed.map segmentOf, s.dir.active⟩ := by
      rw [← h.segments]
    rw [hdir]
    exact listWalFiles_closed h.nonempty hascending.left _
  unfold WalDir.readRecordAtSeq
  rw [hlist, hwhole]
  exact pickFileForSeq_closed h.nonempty hascending htorn hfile

/-- **Lookup by number.**  In every state of every run, whichever calls fail, it finds the whole
record on disk that has the number, and nothing if there is none. -/
theorem lookup_exact {maxFileSize : Nat} {actions : List WalAction} {s : WalState}
    (hrun : run WalState.step (.start maxFileSize) actions = some s) (seq : Nat) :
    s.dir.readRecordAtSeq seq = (s.whole.find? fun f => f.seq = seq).map Framed.raw := by
  obtain ⟨_, _, _, _, h⟩ := Stored.run hrun
  exact h.readRecordAtSeq seq

end

section

open ByteCount

/-- The first two records are in a segment; the crash cuts the fourth out of the active file. -/
def rotatedAndCut : List WalAction :=
  [.append (.bare 1), .append (.bare 2), .flush {}, .append (.bare 3), .append (.bare 4), .flush {},
    .crash 40]

theorem lookup_exact_rotatedAndCut :
    ∃ s ∈ run WalState.step (.start 60) rotatedAndCut, s.dir.segments.length = 1 ∧
      s.dir.readRecordAtSeq 2 = some (⟨.bare 2, 2, by decide⟩ : Framed).raw ∧
      s.dir.readRecordAtSeq 3 = some (⟨.bare 3, 3, by decide⟩ : Framed).raw ∧
      s.dir.readRecordAtSeq 4 = none := by
  have hend : ∃ s ∈ run WalState.step (.start 60) rotatedAndCut, s.dir.segments.length = 1 ∧
      s.whole = [⟨.bare 1, 1, by decide⟩, ⟨.bare 2, 2, by decide⟩, ⟨.bare 3, 3, by decide⟩] := by
    decide +kernel
  obtain ⟨s, hs, hsegments, hwhole⟩ := hend
  refine ⟨s, hs, hsegments, ?_⟩
  rw [lookup_exact hs, lookup_exact hs, lookup_exact hs, hwhole]
  exact ⟨rfl, rfl, rfl⟩

end

/-! ## One NAK -/

section

variable [Crc32c] {nak : Nak}

namespace CastSender

variable {s : CastSender} {dir : WalDir} {seq nowNs : Nat} {io : RetxIo}

theorem retransmit_frame (s : CastSender) (dir : WalDir) (seq nowNs : Nat) (io : RetxIo) :
    ∃ times, (s.retransmit dir seq nowNs io).1 = { s with ringLastRetxNs := times } ∧
      ∀ slot, times slot = s.ringLastRetxNs slot ∨ slot = sendSlot seq ∧ times slot = nowNs ∧
        io.send = true ∧ (s.retransmit dir seq nowNs io).2.isSome := by
  unfold retransmit
  by_cases hdeduped : s.deduped seq nowNs = true
  · rw [if_pos hdeduped]
    exact ⟨s.ringLastRetxNs, rfl, fun _ => .inl rfl⟩
  rw [if_neg hdeduped]
  cases s.lookup dir seq io.read with
  | none => exact ⟨s.ringLastRetxNs, rfl, fun _ => .inl rfl⟩
  | some =>
    cases io.send with
    | false => exact ⟨s.ringLastRetxNs, rfl, fun _ => .inl rfl⟩
    | true =>
      refine ⟨_, rfl, fun slot => ?_⟩
      rcases eq_or_ne slot (sendSlot seq) with rfl | hne
      · exact .inr ⟨rfl, update_self _ _ _, rfl, rfl⟩
      · exact .inl (update_of_ne hne _ _)

theorem snd_retransmit (s : CastSender) (dir : WalDir) (seq nowNs : Nat) (io : RetxIo) :
    (s.retransmit dir seq nowNs io).2 =
      if s.deduped seq nowNs then none else s.lookup dir seq io.read := by
  unfold retransmit
  split_ifs
  · rfl
  · cases s.lookup dir seq io.read <;> rfl
  · cases s.lookup dir seq io.read <;> rfl

theorem retransmit_of_lookup_none (h : s.lookup dir seq io.read = none) :
    s.retransmit dir seq nowNs io = (s, none) := by
  unfold retransmit
  rw [h]
  split_ifs <;> rfl

theorem retransmit_congr {times : Nat → Nat}
    (hslot : times (sendSlot seq) = s.ringLastRetxNs (sendSlot seq)) :
    ({ s with ringLastRetxNs := times }.retransmit dir seq nowNs io).2 =
      (s.retransmit dir seq nowNs io).2 := by
  have hdeduped : deduped { s with ringLastRetxNs := times } seq nowNs = s.deduped seq nowNs := by
    unfold deduped
    simp only [hslot]
  rw [snd_retransmit, snd_retransmit, hdeduped]
  rfl

/-- **The loop.**  With the numbers that are found in different slots, every number gets what it
would get alone. -/
theorem retransmitAll_eq {io : Nat → RetxIo} {seqs : List Nat}
    (hslots : seqs.Pairwise fun seq other =>
      sendSlot other ≠ sendSlot seq ∨ s.lookup dir seq (io seq).read = none) :
    (retransmitAll dir nowNs io seqs s).2 = seqs.flatMap fun seq =>
      (s.retransmit dir seq nowNs (io seq)).2.toList.map (seq, ·) := by
  induction seqs generalizing s with
  | nil => rfl
  | cons seq seqs ih =>
    obtain ⟨hfirst, hrest⟩ := pairwise_cons.1 hslots
    rw [retransmitAll, flatMap_cons]
    dsimp only
    rcases Option.eq_none_or_eq_some (s.lookup dir seq (io seq).read) with hnone | ⟨frame, hsome⟩
    · rw [retransmit_of_lookup_none hnone, ih hrest]
    · obtain ⟨times, hframe, hothers⟩ := s.retransmit_frame dir seq nowNs (io seq)
      rw [hframe, @ih { s with ringLastRetxNs := times } hrest]
      refine congrArg (_ ++ ·) (flatMap_congr fun other hother => ?_)
      have hslot := (hfirst other hother).resolve_right (by simp [hsome])
      rw [retransmit_congr ((hothers _).resolve_right fun h => hslot h.1)]

theorem retransmitAll_frame {io : Nat → RetxIo} (seqs : List Nat) :
    ∃ times, (retransmitAll dir nowNs io seqs s).1 = { s with ringLastRetxNs := times } ∧
      ∀ slot, times slot = s.ringLastRetxNs slot ∨
        times slot = nowNs ∧ ∃ frame ∈ (retransmitAll dir nowNs io seqs s).2,
          (io frame.1).send = true ∧ sendSlot frame.1 = slot := by
  induction seqs generalizing s with
  | nil => exact ⟨s.ringLastRetxNs, rfl, fun _ => .inl rfl⟩
  | cons seq seqs ih =>
    obtain ⟨times, hframe, hone⟩ := s.retransmit_frame dir seq nowNs (io seq)
    obtain ⟨times', hrest, hall⟩ := @ih (s.retransmit dir seq nowNs (io seq)).1
    refine ⟨times', hrest.trans (by rw [hframe]), fun slot => ?_⟩
    rcases hall slot with hsame | ⟨hnow, frame, hmem, hsend⟩
    · rw [hsame, hframe]
      refine (hone slot).imp_right fun ⟨hslot, hnow, hsend, hsome⟩ => ?_
      obtain ⟨frame, hretx⟩ := Option.isSome_iff_exists.1 hsome
      refine ⟨hnow, (seq, frame), mem_append_left _ ?_, hsend, hslot.symm⟩
      exact mem_map.2 ⟨frame, Option.mem_toList.2 hretx, rfl⟩
    · exact .inr ⟨hnow, frame, mem_append_right _ hmem, hsend⟩

end CastSender

/-! ## What the ring holds -/

/-- What the ring holds of the records of the stream, of which the sender has cast `sent`. -/
structure RingHolds (sender : CastSender) (appended sent : List Framed)
    (resent : List (Nat × Nat)) : Prop where
  sound : ∀ slot, sender.ringSeqs slot ≠ 0 →
    ∃ f ∈ appended, f.seq = sender.ringSeqs slot ∧ sender.ringFrames slot = f.wire
  recent : ∀ f ∈ sent, (∀ g ∈ sent, g.seq < f.seq + sendRingCapacity) →
    f.wire.length ≤ sendRingFrameBytes → sender.ringSeqs (sendSlot f.seq) = f.seq
  resent : ∀ slot, sender.ringLastRetxNs slot ≠ 0 →
    ∃ seq, (seq, sender.ringLastRetxNs slot) ∈ resent ∧ sendSlot seq = slot

theorem CastSender.sendFramed_frame (s : CastSender) (f : Framed) (ok : Bool) :
    (s.sendFramed f ok).ringLastRetxNs = s.ringLastRetxNs ∧
      (∀ slot, slot ≠ sendSlot f.seq → (s.sendFramed f ok).ringSeqs slot = s.ringSeqs slot ∧
        (s.sendFramed f ok).ringFrames slot = s.ringFrames slot) ∧
      (f.wire.length ≤ sendRingFrameBytes ∧ (s.sendFramed f ok).ringSeqs (sendSlot f.seq) = f.seq ∧
          (s.sendFramed f ok).ringFrames (sendSlot f.seq) = f.wire ∨
        ¬ f.wire.length ≤ sendRingFrameBytes ∧
          (s.sendFramed f ok).ringSeqs (sendSlot f.seq) = 0) := by
  have hstored : ∃ next, s.sendFramed f ok = { s.store f with nextSeq := next } := by
    cases ok <;> exact ⟨_, rfl⟩
  obtain ⟨_, hnext⟩ := hstored
  rw [hnext]
  unfold store
  by_cases hshort : f.wire.length ≤ sendRingFrameBytes
  · rw [if_pos hshort]
    refine ⟨rfl, fun slot hslot => ⟨?_, ?_⟩, .inl ⟨hshort, ?_, ?_⟩⟩
    · exact update_of_ne hslot _ _
    · exact update_of_ne hslot _ _
    · exact update_self _ _ _
    · exact update_self _ _ _
  · rw [if_neg hshort]
    refine ⟨rfl, fun slot hslot => ⟨?_, ?_⟩, .inr ⟨hshort, ?_⟩⟩
    · exact update_of_ne hslot _ _
    · exact update_of_ne hslot _ _
    · exact update_self _ _ _

theorem RingHolds.sendFramed {sender : CastSender} {appended sent : List Framed}
    {resent : List (Nat × Nat)} (h : RingHolds sender appended sent resent) {f : Framed}
    (hlast : ∀ g ∈ sent, g.seq < f.seq) (ok : Bool) :
    RingHolds (sender.sendFramed f ok) (appended ++ [f]) (sent ++ [f]) resent := by
  obtain ⟨htimes, hothers, hslot⟩ := sender.sendFramed_frame f ok
  refine ⟨fun slot hne => ?_, fun g hg hnear hshort => ?_, fun slot hne => ?_⟩
  · rcases eq_or_ne slot (sendSlot f.seq) with rfl | hother
    · rcases hslot with ⟨-, hseq, hframe⟩ | ⟨-, hseq⟩
      · exact ⟨f, mem_append_right _ (mem_singleton_self f), hseq.symm, hframe⟩
      · exact absurd hseq hne
    · obtain ⟨hseq, hframe⟩ := hothers slot hother
      rw [hseq] at hne ⊢
      rw [hframe]
      obtain ⟨g, hg, hgseq, hgframe⟩ := h.sound slot hne
      exact ⟨g, mem_append_left _ hg, hgseq, hgframe⟩
  · rcases mem_append.1 hg with hmem | hmem
    · -- An older one of the last records has another slot than the new one.
      have hlt := hlast g hmem
      have hwithin := hnear f (mem_append_right _ (mem_singleton_self f))
      have hother : sendSlot g.seq ≠ sendSlot f.seq := by
        unfold sendSlot
        unfold sendRingCapacity at *
        omega
      rw [(hothers _ hother).1]
      exact h.recent g hmem (fun g' hg' => hnear g' (mem_append_left _ hg')) hshort
    · obtain rfl := mem_singleton.1 hmem
      rcases hslot with ⟨-, hseq, -⟩ | ⟨hlong, -⟩
      · exact hseq
      · exact absurd hshort hlong
  · rw [htimes] at hne ⊢
    exact h.resent slot hne

/-- The log and the ring of a sender whose life began with the records `prior`. -/
structure Casting (s : CastStream) (prior : List Framed) (base : Nat) : Prop where
  stored : ∃ closed act pend extra, Stored s.wal closed act pend extra
  follows : s.wal.Follows prior s.sent base
  positive : 0 < base
  ring : RingHolds s.sender s.wal.appended s.sent s.resent

namespace Casting

variable {s s' : CastStream} {prior : List Framed} {base : Nat}
  {f : Framed} {read : Bool} {frame : List UInt8}

theorem seq_getElem (h : Casting s prior base) {i : Nat} (hi : i < s.sent.length) :
    s.sent[i].seq = base + i := by
  have heq := congrArg (fun l => l[i]?) h.follows.numbered
  simp only [getElem?_map, getElem?_eq_getElem hi, Option.map_some] at heq
  rw [getElem?_range' hi] at heq
  simpa using heq

theorem seq_lt (h : Casting s prior base) (hf : f ∈ s.sent) :
    base ≤ f.seq ∧ f.seq < base + s.sent.length := by
  obtain ⟨_, hi, rfl⟩ := getElem_of_mem hf
  rw [h.seq_getElem hi]
  omega

theorem lt_of_mem_last (h : Casting s prior base)
    (hf : f ∈ s.sent.drop (s.sent.length - sendRingCapacity)) {g : Framed} (hg : g ∈ s.sent) :
    g.seq < f.seq + sendRingCapacity := by
  obtain ⟨_, hi, rfl⟩ := getElem_of_mem hf
  rw [length_drop] at hi
  have hg := h.seq_lt hg
  rw [getElem_drop, h.seq_getElem (by omega)]
  omega

theorem offer (hstored : ∃ closed act pend extra, Stored s.wal closed act pend extra)
    (happended : s.wal.appended = prior ++ s.sent)
    (hseq : s.sent.map Framed.seq = range' base s.sent.length)
    (hnext : s.wal.writer.nextSeq = base + s.sent.length + 1) (hf : f.seq = base + s.sent.length)
    (hlast : ∀ g ∈ s.wal.appended, g.seq < f.seq) (hpositive : 0 < base)
    (hring : RingHolds s.sender s.wal.appended s.sent s.resent) (ok : Bool) :
    Casting (s.offer f ok) prior base := by
  obtain ⟨closed, act, _, extra, h⟩ := hstored
  obtain ⟨pend', h'⟩ := h.offer (by omega : f.seq < s.wal.writer.nextSeq) hlast
  have hwal := WalState.follows_offer happended hseq hnext hf
  unfold CastStream.offer
  split_ifs with haccepted
  · rw [if_pos haccepted] at hwal
    refine ⟨⟨closed, act, pend', extra, h'⟩, hwal, hpositive, ?_⟩
    have hadded : (s.wal.offer f).appended = s.wal.appended ++ [f] := by
      rw [hwal.appended, happended, append_assoc]
    rw [hadded]
    refine hring.sendFramed (fun g hg => hlast g ?_) ok
    rw [happended]
    exact mem_append_right _ hg
  · rw [if_neg haccepted] at hwal
    refine ⟨⟨closed, act, pend', extra, h'⟩, hwal, hpositive, ?_⟩
    have hadded : (s.wal.offer f).appended = s.wal.appended := by
      rw [hwal.appended, happended]
    rw [hadded]
    exact hring

theorem step (h : Casting s prior base) {action : CastAction} (hstep : s.step action = some s') :
    ∃ prior' base', Casting s' prior' base' := by
  obtain ⟨closed, act, pend, extra, hstored⟩ := h.stored
  cases action with
  | cast record ok =>
    rw [CastStream.step] at hstep
    cases hstalled : s.wal.stalled with
    | some =>
      rw [hstalled] at hstep
      cases hstep
    | none =>
      rw [hstalled] at hstep
      have hnext := h.follows.nextSeq
      rw [hstalled] at hnext
      obtain ⟨⟨_, f⟩, hprepare, rfl⟩ := Option.map_eq_some_iff.1 hstep
      unfold WalWriter.prepare at hprepare
      split_ifs at hprepare
      obtain ⟨rfl, rfl⟩ := Prod.mk.inj (Option.some.inj hprepare)
      have hcounted := hstored.counted hstalled
      exact ⟨prior, base, offer
        (s := { s with wal := { s.wal with writer.nextSeq := s.wal.writer.nextSeq + 1 } })
        ⟨closed, act, pend, extra, hcounted⟩ h.follows.appended h.follows.numbered
        (congrArg (· + 1) hnext) hnext hstored.below h.positive h.ring ok⟩
  | retry ok =>
    obtain ⟨f, hf, rfl⟩ := Option.map_eq_some_iff.1 hstep
    have hnext := h.follows.nextSeq
    rw [hf] at hnext
    exact ⟨prior, base, offer h.stored h.follows.appended h.follows.numbered hnext
      (h.follows.stalled f hf) (hstored.stalled f hf).2 h.positive h.ring ok⟩
  | flush io =>
    cases hstep
    have hsame := s.wal.sameRecords_flush io
    refine ⟨prior, base, hstored.flush io, h.follows.of_same hsame, h.positive, ?_⟩
    rw [hsame.appended]
    exact h.ring
  | nak nak nowNs io =>
    cases hstep
    obtain ⟨times, hframe, htimes⟩ :=
      @CastSender.retransmitAll_frame _ s.sender s.wal.dir nowNs io nak.seqs
    rw [hframe]
    refine ⟨prior, base, h.stored, h.follows, h.positive, h.ring.sound, h.ring.recent,
      fun slot hne => ?_⟩
    dsimp only at hne ⊢
    rcases htimes slot with hsame | ⟨hnow, frame, hmem, hsend, hslot⟩
    · rw [hsame] at hne ⊢
      obtain ⟨seq, hseq, hslot⟩ := h.ring.resent slot hne
      exact ⟨seq, mem_append_left _ hseq, hslot⟩
    · rw [hnow]
      refine ⟨frame.1, mem_append_right _ (mem_map.2 ⟨frame, ?_, rfl⟩), hslot⟩
      exact mem_filter.2 ⟨hmem, hsend⟩
  | restart cut =>
    obtain ⟨_, hcrash, rfl⟩ := Option.map_eq_some_iff.1 hstep
    obtain ⟨wal', kept, hwal, hstored', -, hstalled, -, hnext⟩ := hstored.crash cut
    obtain rfl := Option.some.inj (hwal.symm.trans hcrash)
    refine ⟨wal'.appended, wal'.writer.nextSeq, ⟨closed, kept, [], [], hstored'⟩,
      WalState.follows_start hstalled, ?_, fun slot hne => absurd rfl hne,
      fun f hf => absurd hf not_mem_nil, fun slot hne => absurd rfl hne⟩
    rw [hnext]
    cases seqRange wal'.appended <;> exact Nat.succ_pos _

theorem start (maxFileSize retxDedupWindowNs : Nat) :
    Casting (.start maxFileSize retxDedupWindowNs) [] 1 where
  stored := ⟨[], [], [], [], Stored.start maxFileSize⟩
  follows := WalState.follows_start (s := .start maxFileSize) rfl
  positive := Nat.one_pos
  ring := ⟨fun _ hne => absurd rfl hne, fun _ hf => absurd hf not_mem_nil,
    fun _ hne => absurd rfl hne⟩

theorem run {maxFileSize retxDedupWindowNs : Nat} {actions : List CastAction}
    (hrun : Rsx.run CastStream.step (.start maxFileSize retxDedupWindowNs) actions = some s) :
    ∃ prior base, Casting s prior base := by
  refine run_preserves (I := fun s => ∃ prior base, Casting s prior base) ?_
    ⟨[], 1, start maxFileSize retxDedupWindowNs⟩ hrun
  rintro s action s' ⟨_, _, h⟩ hstep
  exact h.step hstep

/-! ## What a NAK gets -/

variable (h : Casting s prior base)
include h

theorem lookup_sound {seq : Nat} (hfound : s.sender.lookup s.wal.dir seq read = some frame) :
    ∃ f ∈ s.wal.appended, f.seq = seq ∧ frame = f.wire := by
  unfold CastSender.lookup at hfound
  split_ifs at hfound with hhit
  · obtain ⟨hpos, hseq, -⟩ := hhit
    obtain ⟨f, hf, hfseq, hframe⟩ := h.ring.sound (sendSlot seq) (by rw [hseq]; exact hpos)
    exact ⟨f, hf, hfseq.trans hseq, (Option.some.inj hfound).symm.trans hframe⟩
  · obtain ⟨_, _, _, _, hstored⟩ := h.stored
    rw [hstored.readRecordAtSeq] at hfound
    obtain ⟨_, hr, hbytes⟩ := Option.bind_eq_some_iff.1 hfound
    obtain ⟨f, hf, rfl⟩ := Option.map_eq_some_iff.1 hr
    split_ifs at hbytes
    have hwhole : f ∈ s.wal.whole := mem_of_find?_eq_some hf
    have hmem : f ∈ s.wal.appended :=
      mem_of_mem_filter ((fits_isPrefix _ _).subset hwhole)
    have hseq : f.seq = seq := by simpa using find?_some hf
    exact ⟨f, hmem, hseq, (Option.some.inj hbytes).symm⟩

theorem lookup_u64Max (read : Bool) : s.sender.lookup s.wal.dir u64Max read = none := by
  refine Option.eq_none_iff_forall_ne_some.2 fun frame hfound => ?_
  obtain ⟨f, -, _, -⟩ := h.lookup_sound hfound
  exact absurd f.counted (by omega)

theorem lookup_complete (hf : f ∈ s.sent) (hlast : ∀ g ∈ s.sent, g.seq < f.seq + sendRingCapacity)
    (havailable : f.wire.length ≤ sendRingFrameBytes ∨ f ∈ s.wal.whole ∧ read = true) :
    s.sender.lookup s.wal.dir f.seq read = some f.wire := by
  obtain ⟨_, _, _, _, hstored⟩ := h.stored
  have happended : f ∈ s.wal.appended := by
    rw [h.follows.appended]
    exact mem_append_right _ hf
  have hsome : (s.sender.lookup s.wal.dir f.seq read).isSome := by
    unfold CastSender.lookup
    rcases havailable with hshort | ⟨hwhole, hread⟩
    · have hseq := h.ring.recent f hf hlast hshort
      have hpos : f.seq ≠ 0 := by
        have := (h.seq_lt hf).1
        have := h.positive
        omega
      obtain ⟨g, -, -, hframe⟩ := h.ring.sound (sendSlot f.seq) (by rw [hseq]; exact hpos)
      have hlen : 0 < (s.sender.ringFrames (sendSlot f.seq)).length := by
        rw [hframe]
        exact Nat.lt_of_lt_of_le (by decide) g.size_le_length_wire
      rw [if_pos ⟨hpos, hseq, hlen⟩]
      rfl
    · have hfind : (s.wal.whole.find? fun g => g.seq = f.seq).isSome := by
        rw [find?_isSome]
        exact ⟨f, hwhole, decide_eq_true rfl⟩
      obtain ⟨g, hg⟩ := Option.isSome_iff_exists.1 hfind
      have htotal : ¬ packetBufSize < g.raw.total := by
        have hle := g.length_payload_le
        have htotal : g.raw.total = WalHeader.size + g.payload.length := rfl
        unfold packetBufSize
        unfold WalHeader.size framedWireBytes at *
        omega
      rw [hread, hstored.readRecordAtSeq, hg, Option.map_some, Option.bind_some, Bool.not_true,
        if_neg Bool.false_ne_true]
      split_ifs <;> rfl
  obtain ⟨_, hframe⟩ := Option.isSome_iff_exists.1 hsome
  obtain ⟨_, hg, hseq, rfl⟩ := h.lookup_sound hframe
  rw [hframe, hstored.ascending.eq_of_seq hg happended hseq]

/-- **The frames of a NAK**, number by number. -/
theorem handleNak_eq (nak : Nak) (nowNs : Nat) (io : Nat → RetxIo) :
    (s.sender.handleNak s.wal.dir nak nowNs io).2 = nak.seqs.flatMap fun seq =>
      (s.sender.retransmit s.wal.dir seq nowNs (io seq)).2.toList.map (seq, ·) := by
  refine CastSender.retransmitAll_eq (nak.pairwise_seqs.imp fun {seq other} hpair => ?_)
  rcases hpair with hslot | rfl
  · exact .inl hslot
  · exact .inr (h.lookup_u64Max _)

theorem mem_handleNak {nowNs : Nat} {io : Nat → RetxIo} {seq : Nat} :
    (seq, frame) ∈ (s.sender.handleNak s.wal.dir nak nowNs io).2 ↔ seq ∈ nak.seqs ∧
      s.sender.deduped seq nowNs = false ∧
      s.sender.lookup s.wal.dir seq (io seq).read = some frame := by
  rw [h.handleNak_eq, mem_flatMap]
  constructor
  · rintro ⟨_, hseq, hmem⟩
    obtain ⟨_, hframe, heq⟩ := mem_map.1 hmem
    obtain ⟨rfl, rfl⟩ := Prod.mk.inj heq
    rw [Option.mem_toList, CastSender.snd_retransmit] at hframe
    split_ifs at hframe with hdeduped
    exact ⟨hseq, Bool.eq_false_iff.2 hdeduped, hframe⟩
  · rintro ⟨hseq, hfresh, hfound⟩
    refine ⟨seq, hseq, mem_map.2 ⟨frame, ?_, rfl⟩⟩
    rw [Option.mem_toList, CastSender.snd_retransmit, hfresh]
    exact hfound

theorem nodup_handleNak (nak : Nak) (nowNs : Nat) (io : Nat → RetxIo) :
    ((s.sender.handleNak s.wal.dir nak nowNs io).2.map Prod.fst).Nodup := by
  rw [h.handleNak_eq, map_flatMap, nodup_flatMap]
  constructor
  · intro seq _
    cases (s.sender.retransmit s.wal.dir seq nowNs (io seq)).2 with
    | none => exact nodup_nil
    | some => exact nodup_singleton _
  · refine nak.pairwise_seqs.imp fun {seq other} hpair => ?_
    have hfst : ∀ seq' number, number ∈ (((s.sender.retransmit s.wal.dir seq' nowNs
        (io seq')).2.toList.map (seq', ·)).map Prod.fst) → number = seq' := by
      intro seq' number hmem
      obtain ⟨_, hframe, rfl⟩ := mem_map.1 hmem
      obtain ⟨-, -, rfl⟩ := mem_map.1 hframe
      rfl
    intro number hseq hother
    rcases hpair with hslot | rfl
    · exact hslot ((hfst other number hother).symm.trans (hfst seq number hseq) ▸ rfl)
    · dsimp only at hseq
      rw [CastSender.retransmit_of_lookup_none (h.lookup_u64Max _)] at hseq
      cases hseq

end Casting

/-! ## Retransmission -/

namespace CastStream

/-- A requested record that the sender can serve: the NAK asks for it among its first
`SEND_RING_CAPACITY` numbers, no other number of its slot was retransmitted within the window, and
it is short enough for the ring or already whole on disk, where it can be read. -/
def Serves (s : CastStream) (nak : Nak) (nowNs : Nat) (io : Nat → RetxIo) (f : Framed) : Prop :=
  f.seq < nak.fromSeq + sendRingCapacity ∧
  (∀ resent ∈ s.resent, sendSlot resent.1 = sendSlot f.seq → resent.1 ≠ f.seq →
    s.sender.retxDedupWindowNs ≤ nowNs - resent.2) ∧
  (f.wire.length ≤ sendRingFrameBytes ∨ f ∈ s.wal.whole ∧ (io f.seq).read = true)
  deriving Decidable

/-- **Retransmission.**  In every state of every run and for every NAK, the frames given to the
socket have different numbers, all requested, and each is the frame of the stream's record of that
number; and one of the last `SEND_RING_CAPACITY` records cast that is requested, and that the sender
can serve, is among them unless its own number was retransmitted within the window. -/
theorem nak_answered {maxFileSize retxDedupWindowNs : Nat} {actions : List CastAction}
    {s : CastStream}
    (hrun : run step (start maxFileSize retxDedupWindowNs) actions = some s) (nak : Nak)
    (nowNs : Nat) (io : Nat → RetxIo) :
    ((s.sender.handleNak s.wal.dir nak nowNs io).2.map Prod.fst).Nodup ∧
      (∀ seq frame, (seq, frame) ∈ (s.sender.handleNak s.wal.dir nak nowNs io).2 →
        nak.fromSeq ≤ seq ∧ seq < nak.fromSeq + nak.count ∧
          ∃ f ∈ s.wal.appended, f.seq = seq ∧ frame = f.wire) ∧
      ∀ f ∈ s.sent.drop (s.sent.length - sendRingCapacity), nak.fromSeq ≤ f.seq →
        f.seq < nak.fromSeq + nak.count → s.Serves nak nowNs io f →
        (f.seq, f.wire) ∈ (s.sender.handleNak s.wal.dir nak nowNs io).2 ∨
          ∃ time, (f.seq, time) ∈ s.resent ∧ nowNs - time < s.sender.retxDedupWindowNs := by
  obtain ⟨_, _, h⟩ := Casting.run hrun
  refine ⟨h.nodup_handleNak nak nowNs io, fun seq frame hmem => ?_,
    fun f hlast hfrom hto hserves => ?_⟩
  · obtain ⟨hseq, -, hfound⟩ := h.mem_handleNak.1 hmem
    obtain ⟨f, hf, rfl, hframe⟩ := h.lookup_sound hfound
    obtain ⟨hle, _⟩ := (Nak.mem_seqs f.counted).1 hseq
    exact ⟨hle, by omega, f, hf, rfl, hframe⟩
  · obtain ⟨_, hothers, havailable⟩ := hserves
    have hf : f ∈ s.sent := mem_of_mem_drop hlast
    have hfound := h.lookup_complete hf (fun g hg => h.lt_of_mem_last hlast hg) havailable
    have hseq : f.seq ∈ nak.seqs := (Nak.mem_seqs f.counted).2 ⟨hfrom, by omega⟩
    cases hdeduped : s.sender.deduped f.seq nowNs with
    | false => exact .inl (h.mem_handleNak.2 ⟨hseq, hdeduped, hfound⟩)
    | true =>
      obtain ⟨hne, hwindow⟩ := of_decide_eq_true hdeduped
      obtain ⟨seq, hresent, hslot⟩ := h.ring.resent (sendSlot f.seq) hne
      rcases eq_or_ne seq f.seq with rfl | hother
      · exact .inr ⟨_, hresent, hwindow⟩
      · exact absurd hwindow (not_lt.2 (hothers _ hresent hslot hother))

end CastStream

end

namespace CastStream

open ByteCount

/-- A record of 128 bytes, as `FillRecord`, `BboRecord` and `OrderAcceptedRecord` are. -/
def fillSized : CastRecord where
  recordType := 0
  body := replicate 120 0
  fits := by decide

/-- The second record is too long for the ring and is on disk; the first has just been
retransmitted. -/
def castThree : List CastAction :=
  [.cast (.bare 1) true, .cast fillSized true, .flush {}, .nak ⟨1, 1⟩ 5 fun _ => {},
    .cast (.bare 3) true]

theorem nak_answered_castThree :
    ∃ s ∈ run step (start 1000 1000) castThree, ∃ first second third : Framed,
      s.sent = [first, second, third] ∧ s.resent = [(1, 5)] ∧
      (1, first.wire) ∉ (s.sender.handleNak s.wal.dir ⟨1, 3⟩ 6 fun _ => {}).2 ∧
      (2, second.wire) ∈ (s.sender.handleNak s.wal.dir ⟨1, 3⟩ 6 fun _ => {}).2 ∧
      (3, third.wire) ∈ (s.sender.handleNak s.wal.dir ⟨1, 3⟩ 6 fun _ => {}).2 := by
  have hend : ∃ s ∈ run step (start 1000 1000) castThree,
      s.sent = [⟨.bare 1, 1, by decide⟩, ⟨fillSized, 2, by decide⟩, ⟨.bare 3, 3, by decide⟩] ∧
      s.resent = [(1, 5)] ∧ s.Serves ⟨1, 3⟩ 6 (fun _ => {}) ⟨fillSized, 2, by decide⟩ ∧
      s.Serves ⟨1, 3⟩ 6 (fun _ => {}) ⟨.bare 3, 3, by decide⟩ ∧
      (1, (⟨.bare 1, 1, by decide⟩ : Framed).wire) ∉
        (s.sender.handleNak s.wal.dir ⟨1, 3⟩ 6 fun _ => {}).2 := by decide +kernel
  obtain ⟨s, hs, hsent, hresent, hsecond, hthird, hdeduped⟩ := hend
  have hanswered := (nak_answered hs ⟨1, 3⟩ 6 fun _ => {}).2.2
  rw [hsent, hresent] at hanswered
  refine ⟨s, hs, _, _, _, hsent, hresent, hdeduped, ?_, ?_⟩
  · exact (hanswered _ (by decide) (by decide) (by decide) hsecond).resolve_right (by simp)
  · exact (hanswered _ (by decide) (by decide) (by decide) hthird).resolve_right (by simp)

/-- Such a record is not in the ring, and before the next flush it is not on disk. -/
theorem nak_unanswered_fill :
    ∃ s f, run step (start 1000 1000) [.cast fillSized true] = some s ∧ s.sent = [f] ∧ f.seq = 1 ∧
      s.resent = [] ∧ (s.sender.handleNak s.wal.dir ⟨1, 1⟩ 5 fun _ => {}).2 = [] :=
  ⟨_, ⟨fillSized, 1, by decide⟩, rfl, rfl, rfl, rfl, by decide +kernel⟩

end CastStream

end Rsx.Wal
