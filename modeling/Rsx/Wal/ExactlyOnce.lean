import Rsx.Wal.Layout

/-!
# Every record once

A crash cuts the active file, and the stream is opened again: the records that are whole stay.  So
in every run the files, the active one up to its durable length, and the buffer hold the records
that were appended, each once and in order, apart from those of pruned segments.  -/

namespace Rsx.Wal

open List WalState Option SegmentFile Framed

section

variable [Crc32c]

/-! ## Ranges of numbers -/

section Ranges

variable {fs gs : List Framed}
  {closed : List (List Framed)}

theorem seqRange_of_ne_nil (hne : fs ≠ []) :
    seqRange fs = some ((segmentOf fs).firstSeq, (segmentOf fs).lastSeq) := by
  cases fs with
  | nil => exact absurd rfl hne
  | cons =>
    rw [firstSeq_segmentOf, lastSeq_segmentOf hne]
    unfold seqRange
    rw [head?_cons, bind_some, getLast?_eq_some_getLast hne, map_some]

theorem widen_seqRange (h : Ascending (fs ++ gs)) (hne : gs ≠ []) :
    widen (seqRange fs) (segmentOf gs).firstSeq (segmentOf gs).lastSeq = seqRange (fs ++ gs) := by
  rcases eq_or_ne fs [] with rfl | hfs
  · rw [nil_append, seqRange_of_ne_nil hne]
    rfl
  · obtain ⟨_, hfirst, _⟩ := firstSeq_mem hfs
    obtain ⟨_, hlast, _⟩ := lastSeq_mem hfs
    obtain ⟨_, hfirst', _⟩ := firstSeq_mem hne
    obtain ⟨_, hlast', _⟩ := lastSeq_mem hne
    have hlo := h.lt hfirst hfirst'
    have hhi := h.lt hlast hlast'
    have hsum : fs ++ gs ≠ [] := append_ne_nil_of_left_ne_nil hfs gs
    have hfront : (segmentOf (fs ++ gs)).firstSeq = (segmentOf fs).firstSeq := by
      cases fs with
      | nil => exact absurd rfl hfs
      | cons => rfl
    have hback : (segmentOf (fs ++ gs)).lastSeq = (segmentOf gs).lastSeq := by
      rw [lastSeq_segmentOf hsum, lastSeq_segmentOf hne, getLast_append_of_ne_nil _ hne]
    rw [seqRange_of_ne_nil hfs, seqRange_of_ne_nil hsum, hfront, hback]
    show some (min _ _, max _ _) = _
    rw [Nat.min_eq_left (by omega), Nat.max_eq_right (by omega)]

variable (hne : ∀ fs ∈ closed, fs ≠ [])
include hne

theorem pairwise_firstSeq (h : Ascending closed.flatten) :
    ((closed.map segmentOf).map firstSeq).Pairwise (· ≤ ·) := by
  induction closed with
  | nil => exact .nil
  | cons fs closed ih =>
    refine pairwise_cons.2 ⟨fun seq hseq => ?_, ih (fun gs hgs => hne gs (.tail fs hgs)) h.right⟩
    obtain ⟨_, hmem, rfl⟩ := mem_map.1 hseq
    obtain ⟨gs, hgs, rfl⟩ := mem_map.1 hmem
    obtain ⟨_, hfirst, _⟩ := firstSeq_mem (hne fs mem_cons_self)
    obtain ⟨_, hfirst', _⟩ := firstSeq_mem (hne gs (.tail fs hgs))
    have := h.lt hfirst (mem_flatten.2 ⟨gs, hgs, hfirst'⟩)
    omega

theorem listWalFiles_closed (h : Ascending closed.flatten) (active : Option (List UInt8)) :
    WalDir.listWalFiles ⟨closed.map segmentOf, active⟩ =
      (closed.map segmentOf).map info ++ active.toList.map activeInfo := by
  refine WalDir.listWalFiles_eq (pairwise_firstSeq hne h) fun segment hmem => ?_
  obtain ⟨fs, hfs, rfl⟩ := mem_map.1 hmem
  obtain ⟨f, -, heq⟩ := firstSeq_mem (hne fs hfs)
  rw [heq]
  exact f.counted.le

/-- **The numbers on disk.**  The first and the last of all records. -/
theorem oldestAndHighestSeq_closed {act : List Framed} (h : Ascending (closed.flatten ++ act)) :
    WalDir.oldestAndHighestSeq ⟨closed.map segmentOf, some (encode act)⟩ =
      seqRange (closed.flatten ++ act) := by
  unfold WalDir.oldestAndHighestSeq
  rw [listWalFiles_closed hne h.left, foldl_append]
  -- The segments up to any place give the range of their records.
  have hsegments : ∀ done rest, done ++ rest = closed →
      ((rest.map segmentOf).map info).foldl (fun range f =>
        if f.isActive then (scanFileSeqRange f.bytes).elim range fun seen => widen range
          seen.1 seen.2
        else widen range f.firstSeq f.lastSeq) (seqRange (flatten done)) =
      seqRange closed.flatten := by
    intro done rest
    induction rest generalizing done with
    | nil =>
      rintro rfl
      rw [append_nil]
      rfl
    | cons fs rest ih =>
      intro hsplit
      have hnext : done ++ [fs] ++ rest = closed := by
        rw [append_assoc]
        exact hsplit
      have hascending : Ascending (done.flatten ++ fs) := by
        have hall := h.left
        rw [← hnext, flatten_append, flatten_append, flatten_singleton] at hall
        exact hall.left
      have hfs : fs ≠ [] := hne fs (by rw [← hsplit]; simp)
      have hone := ih (done ++ [fs]) hnext
      rw [flatten_append, flatten_singleton, ← widen_seqRange hascending hfs] at hone
      exact hone
  have hclosed := hsegments [] closed rfl
  have hnone : seqRange (flatten []) = none := rfl
  rw [hnone] at hclosed
  rw [hclosed]
  have hscan : scanFileSeqRange (encode act) = seqRange act := by
    have := scanFileSeqRange_encode (.inl rfl) h.right
    rwa [append_nil] at this
  show (scanFileSeqRange (encode act)).elim (seqRange closed.flatten) _ = _
  rw [hscan]
  rcases eq_or_ne act [] with rfl | hact
  · rw [append_nil]
    rfl
  · rw [seqRange_of_ne_nil hact]
    exact widen_seqRange h hact

end Ranges

/-! ## Opening a stream after a crash -/

namespace Stored

variable {s s' : WalState} {closed : List (List Framed)} {act pend : List Framed}
  {extra : List UInt8}

theorem active_isPrefix (h : Stored s closed act pend extra) :
    s.dir.active.getD [] <+: encode (act ++ pend) := by
  rw [encode_append]
  cases h.phase with
  | opened _ hfile =>
    rw [hfile]
    exact (prefix_append_right_inj _).2 h.initial
  | unrenamed _ hfile =>
    rw [hfile]
    exact prefix_append _ _
  | renamed _ hfile =>
    rw [hfile]
    exact nil_prefix

theorem le_lastSeq {fs : List Framed} (h : Ascending fs) {f : Framed} (hf : f ∈ fs) :
    f.seq ≤ (segmentOf fs).lastSeq :=
  (h.covers hf).2

theorem split (h : Stored s closed act pend extra) {bytes : List UInt8}
    (hinitial : bytes <+: encode (act ++ pend)) :
    ∃ kept tail, bytes = encode kept ++ tail ∧ Torn Framed.wire tail ∧
      Ascending (closed.flatten ++ kept) ∧
      fits Framed.wire s.retained (s.dir.segments.flatMap SegmentFile.bytes ++ bytes).length =
        closed.flatten ++ kept := by
  obtain ⟨tail, hsplit, htorn⟩ := @take_flatMap _ _ Framed.wire (act ++ pend) bytes.length
  have htake : bytes = ((act ++ pend).flatMap Framed.wire).take bytes.length :=
    prefix_iff_eq_take.1 hinitial
  rw [← htake] at hsplit
  refine ⟨fits Framed.wire (act ++ pend) bytes.length, tail, hsplit, htorn, ?_, ?_⟩
  · exact h.ascending_retained.sublist
      (List.Sublist.append_left (fits_isPrefix _ _).sublist _)
  · rw [h.retained, length_append, h.flatMap_bytes]
    exact fits_append _ _ _

/-- **A crash.**  The stream opens, and holds the records that are whole. -/
theorem crash (h : Stored s closed act pend extra) (cut : Nat) :
    ∃ s' kept, s.crash cut = some s' ∧ Stored s' closed kept [] [] ∧
      s'.appended = (s.cutAt cut).whole ∧ s'.stalled = none ∧ s'.pruned = [] ∧
      s'.writer.nextSeq = (seqRange s'.appended).elim 1 (·.2 + 1) := by
  have hbytes : (s.dir.active.map (·.take cut)).getD [] <+: encode (act ++ pend) := by
    have hfile := h.active_isPrefix
    cases hactive : s.dir.active with
    | none => exact nil_prefix
    | some bytes =>
      rw [hactive] at hfile
      exact take_prefix cut bytes |>.trans hfile
  generalize hcut : (s.dir.active.map (·.take cut)).getD [] = bytes at hbytes
  obtain ⟨kept, _, hfile, htorn, hascending, hsurvivors⟩ := h.split hbytes
  have hrange : scanFileSeqRange (encode kept) = seqRange kept := by
    have := scanFileSeqRange_encode (.inl rfl) hascending.right
    rwa [append_nil] at this
  let writer : WalWriter := {
    fileSize := (encode kept).length
    firstSeq := (seqRange kept).map Prod.fst
    flushedSeq := (seqRange kept).elim 0 Prod.snd
    maxFileSize := s.writer.maxFileSize }
  have hopen : openWalWriter ⟨s.dir.segments, s.dir.active.map (·.take cut)⟩ s.writer.maxFileSize =
      .ok (⟨s.dir.segments, some (encode kept)⟩,
        (seqRange (closed.flatten ++ kept)).elim writer fun range =>
          writer.setNextSeq (range.2 + 1)) := by
    unfold openWalWriter WalWriter.new
    rw [hcut, hfile, cutTornTail_encode htorn, ← oldestAndHighestSeq_closed h.nonempty hascending,
      ← h.segments]
    show Except.ok _ = _
    rw [hrange]
  let s' : WalState := {
    dir := ⟨s.dir.segments, some (encode kept)⟩
    writer := (seqRange (closed.flatten ++ kept)).elim writer fun range =>
      writer.setNextSeq (range.2 + 1)
    appended := closed.flatten ++ kept }
  have hwhole : (s.cutAt cut).whole = closed.flatten ++ kept := by
    have hstored : (s.cutAt cut).stored = s.dir.segments.flatMap SegmentFile.bytes ++ bytes := by
      unfold WalState.stored WalState.cutAt
      rw [hcut]
    unfold WalState.whole
    rw [hstored]
    exact hsurvivors
  have hcrash : s.crash cut = some s' := by
    unfold WalState.crash
    dsimp only
    rw [hwhole]
    unfold WalState.cutAt
    rw [hopen]
  have hframe : s'.writer = { writer with
      nextSeq := (seqRange (closed.flatten ++ kept)).elim 1 (·.2 + 1)
      lastSeq := s'.writer.lastSeq } := by
    show (seqRange _).elim writer _ = { writer with
      nextSeq := (seqRange (closed.flatten ++ kept)).elim 1 (·.2 + 1)
      lastSeq := ((seqRange _).elim writer _).lastSeq }
    cases seqRange (closed.flatten ++ kept) <;> rfl
  have hnext : s'.writer.nextSeq = (seqRange s'.appended).elim 1 (·.2 + 1) := by
    rw [hframe]
  refine ⟨s', kept, hcrash, ?_, hwhole.symm, rfl, rfl, hnext⟩
  refine {
    segments := h.segments
    nonempty := h.nonempty
    phase := .opened (by rw [hframe]) (by rw [append_nil]) ⟨by rw [hframe], ?_, ?_⟩
    initial := nil_prefix
    buf := by rw [hframe]; rfl
    bufFirstSeq := by rw [hframe]; rfl
    lastSeq := fun hne => absurd rfl hne
    retained := ?_
    ascending := hascending
    below := ?_
    pruned := fun segment hmem => absurd hmem not_mem_nil
    stalled := fun f hf => absurd hf (by simp [s']) }
  · rw [hframe]
    show (seqRange kept).map Prod.fst = _
    cases kept with
    | nil => rfl
    | cons f kept => rw [seqRange_of_ne_nil (cons_ne_nil f kept)]; rfl
  · intro hne
    rw [hframe]
    show (seqRange kept).elim 0 Prod.snd = _
    rw [seqRange_of_ne_nil hne, ← lastSeq_segmentOf hne]
    rfl
  · rw [append_nil]
    exact filter_eq_self.2 fun f _ => decide_eq_true (by simp [s'])
  · intro f hf
    have hne : closed.flatten ++ kept ≠ [] := ne_nil_of_mem hf
    rw [hnext]
    rw [seqRange_of_ne_nil hne]
    exact Nat.lt_succ_of_le (le_lastSeq hascending hf)

/-! ## Steps -/

theorem start (maxFileSize : Nat) : Stored (.start maxFileSize) [] [] [] [] where
  segments := rfl
  nonempty := fun fs hfs => absurd hfs not_mem_nil
  phase := .opened rfl rfl ⟨rfl, rfl, fun hne => absurd rfl hne⟩
  initial := prefix_rfl
  buf := rfl
  bufFirstSeq := rfl
  lastSeq := fun hne => absurd rfl hne
  retained := rfl
  ascending := .nil
  below := fun f hf => absurd hf not_mem_nil
  pruned := fun segment hmem => absurd hmem not_mem_nil
  stalled := fun f hf => absurd hf (by simp [WalState.start])

section

variable (h : Stored s closed act pend extra)
include h

theorem counted (hstalled : s.stalled = none) :
    Stored { s with writer.nextSeq := s.writer.nextSeq + 1 } closed act pend extra :=
  { h with
    phase := h.phase.grow le_rfl rfl
    below := fun g hg => (h.below g hg).trans (Nat.lt_succ_self _)
    stalled := fun g hg => absurd hg (by simp [hstalled]) }

theorem offer {f : Framed} (hnext : f.seq < s.writer.nextSeq)
    (hlast : ∀ g ∈ s.appended, g.seq < f.seq) :
    ∃ pend', Stored (s.offer f) closed act pend' extra := by
  unfold WalState.offer WalWriter.appendFramed
  split_ifs with hfull
  · refine ⟨pend, { h with phase := h.phase, stalled := fun g hg => ?_ }⟩
    cases hg
    exact ⟨hnext, hlast⟩
  · refine ⟨pend ++ [f], {
      segments := h.segments
      nonempty := h.nonempty
      phase := ?_
      initial := ?_
      buf := ?_
      bufFirstSeq := ?_
      lastSeq := fun hne => by rw [getLast_append_singleton]
      retained := ?_
      ascending := h.ascending.snoc hlast
      below := ?_
      pruned := ?_
      stalled := fun g hg => absurd hg (by simp) }⟩
    · refine h.phase.grow ?_ rfl
      rw [length_append]
      exact Nat.le_add_right _ _
    · rw [encode_append]
      exact h.initial.trans (prefix_append _ _)
    · rw [h.buf, encode_append, encode_cons, encode_nil, append_nil]
    · rw [h.bufFirstSeq]
      cases pend <;> rfl
    · have hkept : (s.appended ++ [f]).filter
          (fun f => decide (¬ ∃ segment ∈ s.pruned, segment.Covers f)) = s.retained ++ [f] := by
        have hnot : ¬ ∃ segment ∈ s.pruned, segment.Covers f := by
          rintro ⟨segment, hmem, hcovers⟩
          obtain ⟨g, hg, heq⟩ := h.pruned segment hmem
          have := hlast g hg
          have := hcovers.2
          omega
        rw [filter_append, filter_cons, if_pos (decide_eq_true hnot)]
        rfl
      exact hkept.trans (by rw [h.retained, append_assoc, append_assoc])
    · intro g hg
      rcases mem_append.1 hg with hmem | hmem
      · exact h.below g hmem
      · rw [mem_singleton.1 hmem]
        exact hnext
    · intro segment hmem
      obtain ⟨g, hg, heq⟩ := h.pruned segment hmem
      exact ⟨g, mem_append_left _ hg, heq⟩

theorem step {action : WalAction} (hstep : s.step action = some s') :
    ∃ closed' act' pend' extra', Stored s' closed' act' pend' extra' := by
  cases action with
  | append record =>
    rw [WalState.step] at hstep
    cases hstalled : s.stalled with
    | some =>
      rw [hstalled] at hstep
      cases hstep
    | none =>
      rw [hstalled] at hstep
      obtain ⟨⟨_, f⟩, hprepare, rfl⟩ := Option.map_eq_some_iff.1 hstep
      unfold WalWriter.prepare at hprepare
      split_ifs at hprepare with hcounted
      obtain ⟨rfl, rfl⟩ := Prod.mk.inj (Option.some.inj hprepare)
      obtain ⟨pend', h'⟩ := (h.counted hstalled).offer
        (f := ⟨record, s.writer.nextSeq, hcounted⟩) (Nat.lt_succ_self _) h.below
      exact ⟨closed, act, pend', extra, h'⟩
  | retry =>
    obtain ⟨f, hf, rfl⟩ := Option.map_eq_some_iff.1 hstep
    obtain ⟨hnext, hlast⟩ := h.stalled f hf
    obtain ⟨pend', h'⟩ := h.offer hnext hlast
    exact ⟨closed, act, pend', extra, h'⟩
  | drop =>
    cases hstep
    exact ⟨closed, act, pend, extra, { h with stalled := fun f hf => absurd hf (by simp) }⟩
  | flush io =>
    cases hstep
    exact h.flush io
  | crash cut =>
    obtain ⟨_, kept, hcrash, h', -⟩ := h.crash cut
    obtain rfl := Option.some.inj (hcrash.symm.trans hstep)
    exact ⟨closed, kept, [], [], h'⟩

end

/-- **Every run** keeps the records where they belong. -/
theorem run {maxFileSize : Nat} {actions : List WalAction}
    (hrun : Rsx.run WalState.step (.start maxFileSize) actions = some s) :
    ∃ closed act pend extra, Stored s closed act pend extra := by
  refine run_preserves (I := fun s => ∃ closed act pend extra, Stored s closed act pend extra) ?_
    ⟨[], [], [], [], start maxFileSize⟩ hrun
  rintro s action s' ⟨_, _, _, _, h⟩ hstep
  exact h.step hstep

end Stored

/-- **Every record once.**  In every state of every run, whichever calls fail and however often the
stream is opened after a crash, the files, the active one up to its durable length, and the buffer
are the records that were appended and not pruned, in order; and every segment is named after the
first and the last of its records. -/
theorem appended_once {maxFileSize : Nat} {actions : List WalAction} {s : WalState}
    (hrun : run WalState.step (.start maxFileSize) actions = some s) :
    s.durable ++ s.writer.buf = encode s.retained ∧ Ascending s.appended ∧
      ∀ segment ∈ s.dir.segments, ∃ first rest, segment.bytes = encode (first :: rest) ∧
        segment.firstSeq = first.seq ∧
        segment.lastSeq = ((first :: rest).getLast (cons_ne_nil first rest)).seq := by
  obtain ⟨closed, act, _, _, h⟩ := Stored.run hrun
  refine ⟨?_, h.ascending, fun segment hmem => ?_⟩
  · rw [h.durable_eq, h.buf, h.retained, ← append_assoc, encode_append (closed.flatten ++ act)]
  · rw [h.segments] at hmem
    obtain ⟨fs, hfs, rfl⟩ := mem_map.1 hmem
    cases fs with
    | nil => exact absurd rfl (h.nonempty [] hfs)
    | cons first rest =>
      exact ⟨first, rest, rfl, rfl, lastSeq_segmentOf (cons_ne_nil first rest)⟩

end

open ByteCount

def CastRecord.bare (recordType : UInt16) : CastRecord where
  recordType := recordType
  body := []
  fits := by decide

/-- The first flush fails on its sync, and the second in the middle of the write; the third
rotates. -/
theorem appended_once_retried :
    ∃ s, run WalState.step (.start 48) [.append (.bare 1), .append (.bare 2),
        .flush { synced := false }, .flush { failedAt := some 30 }, .flush {}] = some s ∧
      s.dir.segments.length = 1 ∧ s.writer.buf = [] ∧
      s.durable ++ s.writer.buf = encode s.retained := by
  refine exists_run (P := fun s => s.dir.segments.length = 1 ∧ s.writer.buf = [])
    (by decide +kernel) ?_
  rintro s hs ⟨hsegments, hbuf⟩
  exact ⟨hsegments, hbuf, (appended_once hs).1⟩

/-- After a sync that failed the record is in the active file and in the buffer, until the next
flush cuts the file back. -/
theorem stored_twice_after_failedSync :
    ∃ s f, run WalState.step (.start 48) [.append (.bare 1), .flush { synced := false }] = some s ∧
      s.appended = [f] ∧ s.stored ++ s.writer.buf = encode [f, f] := by
  refine ⟨_, ⟨.bare 1, 1, by decide⟩, rfl, rfl, ?_⟩
  decide +kernel

end Rsx.Wal
