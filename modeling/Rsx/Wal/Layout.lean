import Rsx.Wal.Writer

/-!
# Where the records of a stream are

The records that a writer was given are in the segments, in the active file up to its durable
length, and in the buffer.  A flush keeps it so, whichever of its calls fail.  -/

namespace Rsx.Wal

open List WalState

/-! ## Numbers that grow -/

section Ascending

variable {fs gs : List Framed} {f g : Framed}

theorem Ascending.left (h : Ascending (fs ++ gs)) : Ascending fs :=
  (pairwise_append.1 h).1

theorem Ascending.right (h : Ascending (fs ++ gs)) : Ascending gs :=
  (pairwise_append.1 h).2.1

theorem Ascending.lt (h : Ascending (fs ++ gs)) (hf : f ∈ fs) (hg : g ∈ gs) : f.seq < g.seq :=
  (pairwise_append.1 h).2.2 f hf g hg

theorem Ascending.snoc (h : Ascending fs) (hlt : ∀ g ∈ fs, g.seq < f.seq) :
    Ascending (fs ++ [f]) := by
  refine pairwise_append.2 ⟨h, pairwise_singleton _ _, fun g hg f' hf' => ?_⟩
  rw [mem_singleton.1 hf']
  exact hlt g hg

theorem Ascending.eq_of_seq (h : Ascending fs) (hf : f ∈ fs) (hg : g ∈ fs) (heq : f.seq = g.seq) :
    f = g := by
  have hinj : (fs.map Framed.seq).Nodup := (pairwise_map.2 h).imp fun hlt => Nat.ne_of_lt hlt
  exact inj_on_of_nodup_map hinj hf hg heq

variable [Crc32c]

def segmentOf (fs : List Framed) : SegmentFile where
  firstSeq := (fs.head?.map Framed.seq).getD 0
  lastSeq := (fs.getLast?.map Framed.seq).getD 0
  bytes := encode fs

theorem encode_flatten (closed : List (List Framed)) :
    encode closed.flatten = closed.flatMap encode := by
  induction closed with
  | nil => rfl
  | cons fs closed ih => rw [flatten_cons, encode_append, ih, flatMap_cons]

theorem firstSeq_segmentOf (f : Framed) (fs : List Framed) :
    (segmentOf (f :: fs)).firstSeq = f.seq :=
  rfl

theorem lastSeq_segmentOf (hne : fs ≠ []) : (segmentOf fs).lastSeq = (fs.getLast hne).seq := by
  unfold segmentOf
  rw [List.getLast?_eq_some_getLast hne]
  rfl

theorem Ascending.covers (h : Ascending fs) (hf : f ∈ fs) : (segmentOf fs).Covers f := by
  have hne : fs ≠ [] := ne_nil_of_mem hf
  constructor
  · cases fs with
    | nil => exact absurd rfl hne
    | cons =>
      rcases mem_cons.1 hf with rfl | hmem
      · exact le_rfl
      · exact ((pairwise_cons.1 h).1 f hmem).le
  · rw [lastSeq_segmentOf hne]
    rw [← dropLast_append_getLast hne] at h hf
    rcases mem_append.1 hf with hmem | hmem
    · exact (h.lt hmem (mem_singleton_self _)).le
    · rw [mem_singleton.1 hmem]

theorem firstSeq_mem (hne : fs ≠ []) : ∃ f ∈ fs, (segmentOf fs).firstSeq = f.seq := by
  cases fs with
  | nil => exact absurd rfl hne
  | cons f => exact ⟨f, mem_cons_self, rfl⟩

theorem lastSeq_mem (hne : fs ≠ []) : ∃ f ∈ fs, (segmentOf fs).lastSeq = f.seq :=
  ⟨fs.getLast hne, getLast_mem hne, lastSeq_segmentOf hne⟩

/-- **Pruning.**  What the deleted segments of a stream covered is what they held. -/
theorem filter_prune (p : SegmentFile → Bool) {closed : List (List Framed)} {rest : List Framed}
    (hne : ∀ fs ∈ closed, fs ≠ []) (h : Ascending (closed.flatten ++ rest)) :
    (closed.flatten ++ rest).filter (fun f => decide (¬ ∃ segment ∈
        (closed.map segmentOf).filter p, segment.Covers f)) =
      (closed.filter fun fs => !p (segmentOf fs)).flatten ++ rest := by
  induction closed with
  | nil =>
    refine filter_eq_self.2 fun f _ => decide_eq_true ?_
    rintro ⟨segment, hmem, -⟩
    cases hmem
  | cons fs closed ih =>
    rw [flatten_cons, append_assoc] at h ⊢
    have hfs : fs ≠ [] := hne fs mem_cons_self
    have hrest := ih (fun gs hgs => hne gs (.tail fs hgs)) h.right
    rw [filter_append]
    have hlater : (closed.flatten ++ rest).filter (fun f => decide (¬ ∃ segment ∈
          ((fs :: closed).map segmentOf).filter p, segment.Covers f)) =
        (closed.filter fun fs => !p (segmentOf fs)).flatten ++ rest := by
      rw [← hrest]
      refine filter_congr fun f hf => decide_eq_decide.2 (not_congr ?_)
      constructor
      · rintro ⟨segment, hmem, hcovers⟩
        obtain ⟨hmem, hp⟩ := mem_filter.1 hmem
        rcases mem_cons.1 hmem with rfl | hmem
        · obtain ⟨_, hlast, heq⟩ := lastSeq_mem hfs
          have := h.lt hlast hf
          have := hcovers.2
          omega
        · exact ⟨segment, mem_filter.2 ⟨hmem, hp⟩, hcovers⟩
      · rintro ⟨segment, hmem, hcovers⟩
        obtain ⟨hmem, hp⟩ := mem_filter.1 hmem
        exact ⟨segment, mem_filter.2 ⟨.tail _ hmem, hp⟩, hcovers⟩
    have hfirst : fs.filter (fun f => decide (¬ ∃ segment ∈
          ((fs :: closed).map segmentOf).filter p, segment.Covers f)) =
        if p (segmentOf fs) then [] else fs := by
      split_ifs with hp
      · refine filter_eq_nil_iff.2 fun f hf => ?_
        rw [decide_eq_true_iff, not_not]
        exact ⟨segmentOf fs, mem_filter.2 ⟨mem_cons_self, hp⟩, h.left.covers hf⟩
      · refine filter_eq_self.2 fun f hf => decide_eq_true ?_
        rintro ⟨_, hmem, hcovers⟩
        obtain ⟨hmem, hsegment⟩ := mem_filter.1 hmem
        rcases mem_cons.1 hmem with rfl | hmem
        · exact hp hsegment
        · obtain ⟨gs, hgs, rfl⟩ := mem_map.1 hmem
          obtain ⟨_, hmem, _⟩ := firstSeq_mem (hne gs (.tail fs hgs))
          have := h.lt hf (mem_append_left rest (mem_flatten.2 ⟨gs, hgs, hmem⟩))
          have := hcovers.1
          omega
    rw [hlater, hfirst, filter_cons]
    cases p (segmentOf fs) <;> simp

end Ascending

variable [Crc32c]

/-! ## Where the records are -/

def WalWriter.Due (w : WalWriter) : Prop :=
  0 < w.fileSize ∧ w.maxFileSize ≤ w.fileSize + w.buf.length

structure ActiveBooks (w : WalWriter) (act : List Framed) : Prop where
  fileSize : w.fileSize = (encode act).length
  firstSeq : w.firstSeq = act.head?.map Framed.seq
  flushedSeq : ∀ hne : act ≠ [], w.flushedSeq = (act.getLast hne).seq

/-- How far a rotation has come.  `extra` is what a failed flush left past the durable length. -/
inductive Phase (w : WalWriter) (active : Option (List UInt8)) (act : List Framed)
    (extra : List UInt8) : Prop
  | opened (handle : w.handle = .active) (file : active = some (encode act ++ extra))
      (books : ActiveBooks w act)
  | unrenamed (handle : w.handle = .devNull) (file : active = some (encode act))
      (books : ActiveBooks w act) (due : w.Due) (clean : extra = [])
  | renamed (handle : w.handle = .devNull) (file : active = none) (due : w.Due) (empty : act = [])
      (clean : extra = [])

theorem Phase.grow {w w' : WalWriter} {active : Option (List UInt8)} {act : List Framed}
    {extra : List UInt8} (h : Phase w active act extra) (hbuf : w.buf.length ≤ w'.buf.length)
    (hframe : w' = { w with
      nextSeq := w'.nextSeq, buf := w'.buf
      bufFirstSeq := w'.bufFirstSeq, lastSeq := w'.lastSeq }) :
    Phase w' active act extra := by
  have hbooks : ActiveBooks w act → ActiveBooks w' act := by
    intro hbooks
    rw [hframe]
    exact ⟨hbooks.fileSize, hbooks.firstSeq, hbooks.flushedSeq⟩
  have hdue : w.Due → w'.Due := by
    intro hdue
    rw [hframe]
    exact ⟨hdue.1, hdue.2.trans (Nat.add_le_add_left hbuf _)⟩
  have hhandle : w'.handle = w.handle := by rw [hframe]
  cases h with
  | opened hactive hfile hact => exact .opened (hhandle.trans hactive) hfile (hbooks hact)
  | unrenamed hnull hfile hact hw hclean =>
    exact .unrenamed (hhandle.trans hnull) hfile (hbooks hact) (hdue hw) hclean
  | renamed hnull hfile hw hempty hclean =>
    exact .renamed (hhandle.trans hnull) hfile (hdue hw) hempty hclean

/-- The records of the segments, of the active file and of the buffer. -/
structure Stored (s : WalState) (closed : List (List Framed)) (act pend : List Framed)
    (extra : List UInt8) : Prop where
  segments : s.dir.segments = closed.map segmentOf
  nonempty : ∀ fs ∈ closed, fs ≠ []
  phase : Phase s.writer s.dir.active act extra
  initial : extra <+: encode pend
  buf : s.writer.buf = encode pend
  bufFirstSeq : s.writer.bufFirstSeq = pend.head?.map Framed.seq
  lastSeq : ∀ hne : pend ≠ [], s.writer.lastSeq = (pend.getLast hne).seq
  retained : s.retained = closed.flatten ++ (act ++ pend)
  ascending : Ascending s.appended
  below : ∀ f ∈ s.appended, f.seq < s.writer.nextSeq
  pruned : ∀ segment ∈ s.pruned, ∃ f ∈ s.appended, segment.lastSeq = f.seq
  stalled : ∀ f ∈ s.stalled, f.seq < s.writer.nextSeq ∧ ∀ g ∈ s.appended, g.seq < f.seq

namespace Stored

variable {s s' : WalState} {closed : List (List Framed)} {act pend : List Framed}
  {extra : List UInt8}

theorem ascending_retained (h : Stored s closed act pend extra) :
    Ascending (closed.flatten ++ (act ++ pend)) := by
  rw [← h.retained]
  exact h.ascending.sublist filter_sublist

theorem act_ne_nil (h : ActiveBooks s.writer act) (hdue : s.writer.Due) : act ≠ [] := by
  rintro rfl
  have := hdue.1
  rw [h.fileSize] at this
  exact absurd this (lt_irrefl 0)

section

variable (h : Stored s closed act pend extra)
include h

theorem flatMap_bytes : s.dir.segments.flatMap SegmentFile.bytes = encode closed.flatten := by
  rw [h.segments, flatMap_map]
  exact (encode_flatten closed).symm

theorem stored_eq : s.stored = encode closed.flatten ++ (encode act ++ extra) := by
  unfold stored
  rw [h.flatMap_bytes]
  cases h.phase with
  | opened _ hfile =>
    rw [hfile]
    rfl
  | unrenamed _ hfile _ _ hclean =>
    rw [hfile, hclean, append_nil]
    rfl
  | renamed _ hfile _ hempty hclean =>
    rw [hfile, hempty, hclean]
    rfl

theorem durable_eq : s.durable = encode (closed.flatten ++ act) := by
  unfold durable
  rw [h.flatMap_bytes, encode_append]
  cases h.phase with
  | opened _ hfile hbooks =>
    rw [hfile, hbooks.fileSize]
    exact congrArg _ take_left
  | unrenamed _ hfile hbooks =>
    rw [hfile, hbooks.fileSize]
    exact congrArg _ (take_length)
  | renamed _ hfile _ hempty =>
    rw [hfile, hempty, Option.getD_none, take_nil]
    rfl

end

/-! ## The parts of a flush -/

theorem cutBack (h : Stored s closed act pend extra) (io : FlushIo) :
    ∃ extra', Stored (s.cutBack io).1 closed act pend extra' ∧
      ((s.cutBack io).2 = true → extra' = []) := by
  unfold WalState.cutBack
  by_cases hmetadata : (!io.metadata) = true
  · rw [if_pos hmetadata]
    exact ⟨extra, h, fun hok => absurd hok Bool.false_ne_true⟩
  rw [if_neg hmetadata]
  by_cases hlen : s.writer.fileSize < s.handleLen
  · rw [if_pos hlen]
    by_cases hset : (!io.setLen) = true
    · rw [if_pos hset]
      exact ⟨extra, h, fun hok => absurd hok Bool.false_ne_true⟩
    · rw [if_neg hset]
      refine ⟨[], { h with phase := ?_, initial := nil_prefix }, fun _ => rfl⟩
      cases h.phase with
      | opened hhandle hfile hbooks =>
        refine .opened hhandle ?_ hbooks
        rw [hfile, hbooks.fileSize, Option.map_some, take_left, append_nil]
      | unrenamed hhandle | renamed hhandle =>
        rw [WalState.handleLen, hhandle] at hlen
        exact absurd hlen (Nat.not_lt_zero _)
  · rw [if_neg hlen]
    refine ⟨[], { h with phase := ?_, initial := nil_prefix }, fun _ => rfl⟩
    cases h.phase with
    | opened hhandle hfile hbooks =>
      rw [WalState.handleLen, hhandle, hfile, hbooks.fileSize] at hlen
      have hclean : extra = [] := by
        refine eq_nil_of_length_eq_zero ?_
        simp only [Option.getD_some, length_append] at hlen
        omega
      rw [hclean] at hfile
      exact .opened hhandle hfile hbooks
    | unrenamed hhandle hfile hbooks hdue => exact .unrenamed hhandle hfile hbooks hdue rfl
    | renamed hhandle hfile hdue hempty => exact .renamed hhandle hfile hdue hempty rfl

theorem devNull (h : Stored s closed act pend []) (hdue : s.writer.Due) :
    Stored { s with writer.handle := .devNull } closed act pend [] := by
  refine { h with phase := ?_ }
  cases h.phase with
  | opened _ hfile hbooks =>
    rw [append_nil] at hfile
    exact .unrenamed rfl hfile ⟨hbooks.fileSize, hbooks.firstSeq, hbooks.flushedSeq⟩ hdue rfl
  | unrenamed _ hfile hbooks =>
    exact .unrenamed rfl hfile ⟨hbooks.fileSize, hbooks.firstSeq, hbooks.flushedSeq⟩ hdue rfl
  | renamed _ hfile _ hempty => exact .renamed rfl hfile hdue hempty rfl

theorem renameActive (h : Stored s closed act pend []) (hdue : s.writer.Due)
    (hhandle : s.writer.handle = .devNull) (hfile : s.dir.active = some (encode act))
    (hbooks : ActiveBooks s.writer act) :
    Stored (s.renameActive (encode act) (s.writer.firstSeq.getD s.writer.flushedSeq)
      s.writer.flushedSeq) (closed ++ [act]) [] pend [] := by
  have hact : act ≠ [] := act_ne_nil hbooks hdue
  have hname : (⟨s.writer.firstSeq.getD s.writer.flushedSeq, s.writer.flushedSeq, encode act⟩ :
      SegmentFile) = segmentOf act := by
    rw [hbooks.firstSeq, hbooks.flushedSeq hact]
    cases act with
    | nil => exact absurd rfl hact
    | cons => rfl
  have hascending := h.ascending_retained
  rw [← append_assoc] at hascending
  refine { h with
    segments := ?_
    nonempty := ?_
    phase := .renamed hhandle rfl hdue rfl rfl
    retained := ?_ }
  · show (s.dir.segments.filter _) ++ _ = _
    rw [hname, h.segments, map_append]
    refine congrArg (· ++ [segmentOf act]) (filter_eq_self.2 fun segment hmem => ?_)
    obtain ⟨fs, hfs, rfl⟩ := mem_map.1 hmem
    refine decide_eq_true fun heq => ?_
    obtain ⟨_, hlast, _⟩ := lastSeq_mem (h.nonempty fs hfs)
    obtain ⟨_, hlast', _⟩ := lastSeq_mem hact
    have hlt := hascending.left.lt (mem_flatten.2 ⟨fs, hfs, hlast⟩) hlast'
    have hsame : (segmentOf fs).lastSeq = (segmentOf act).lastSeq := by
      rw [← hname]
      exact (Prod.mk.inj heq).2
    omega
  · intro fs hfs
    rcases mem_append.1 hfs with hmem | hmem
    · exact h.nonempty fs hmem
    · rw [mem_singleton.1 hmem]
      exact hact
  · have hsame : (s.renameActive (encode act) (s.writer.firstSeq.getD s.writer.flushedSeq)
        s.writer.flushedSeq).retained = s.retained := rfl
    rw [hsame, h.retained, flatten_append, flatten_singleton, nil_append, append_assoc]

theorem reopen (h : Stored s closed [] pend []) (pruned : SegmentFile → Bool) : Stored { s with
        dir.segments := s.dir.segments.filter fun segment => !pruned segment
        dir.active := some []
        writer.handle := .active
        writer.fileSize := 0
        writer.firstSeq := none
        pruned := s.pruned ++ s.dir.segments.filter pruned }
      (closed.filter fun fs => !pruned (segmentOf fs)) [] pend [] := by
  have hascending := h.ascending_retained
  refine { h with
    segments := ?_
    nonempty := fun fs hfs => h.nonempty fs (mem_of_mem_filter hfs)
    phase := .opened rfl rfl ⟨rfl, rfl, fun hne => absurd rfl hne⟩
    retained := ?_
    pruned := ?_ }
  · rw [h.segments, filter_map]
    rfl
  · rw [← filter_prune pruned h.nonempty hascending, ← h.retained, ← h.segments]
    unfold WalState.retained
    rw [filter_filter]
    refine filter_congr fun f _ => ?_
    rw [← Bool.decide_and, decide_eq_decide]
    constructor
    · intro hnone
      refine ⟨fun ⟨segment, hmem, hcovers⟩ => hnone ⟨segment, ?_, hcovers⟩,
        fun ⟨segment, hmem, hcovers⟩ => hnone ⟨segment, ?_, hcovers⟩⟩
      · exact mem_append_right _ hmem
      · exact mem_append_left _ hmem
    · rintro ⟨hnew, hold⟩ ⟨segment, hmem, hcovers⟩
      rcases mem_append.1 hmem with hmem | hmem
      · exact hold ⟨segment, hmem, hcovers⟩
      · exact hnew ⟨segment, hmem, hcovers⟩
  · intro segment hmem
    rcases mem_append.1 hmem with hmem | hmem
    · exact h.pruned segment hmem
    · rw [h.segments] at hmem
      obtain ⟨fs, hfs, rfl⟩ := mem_map.1 (mem_of_mem_filter hmem)
      obtain ⟨f, hf, heq⟩ := lastSeq_mem (h.nonempty fs hfs)
      have hretained : f ∈ s.retained := by
        rw [h.retained]
        exact mem_append_left _ (mem_flatten.2 ⟨fs, hfs, hf⟩)
      exact ⟨f, mem_of_mem_filter hretained, heq⟩

/-- **A rotation**, which leaves the handle on the active file when it succeeds. -/
theorem rotate (h : Stored s closed act pend []) (hdue : s.writer.Due) (io : RotateIo) :
    ∃ closed' act', Stored (s.rotate io).1 closed' act' pend [] ∧
      ((s.rotate io).2 = true → (s.rotate io).1.writer.handle = .active) := by
  unfold WalState.rotate
  by_cases hsynced : (!io.synced) = true
  · rw [if_pos hsynced]
    exact ⟨closed, act, h, fun hok => absurd hok Bool.false_ne_true⟩
  rw [if_neg hsynced]
  by_cases hnull : (!io.devNull) = true
  · rw [if_pos hnull]
    exact ⟨closed, act, h, fun hok => absurd hok Bool.false_ne_true⟩
  rw [if_neg hnull]
  have hheld := h.devNull hdue
  dsimp only
  cases hheld.phase with
  | opened hhandle => cases hhandle
  | renamed _ hfile =>
    rw [hfile]
    exact ⟨closed, act, hheld, fun hok => absurd hok Bool.false_ne_true⟩
  | unrenamed hhandle hfile hbooks =>
    rw [hfile]
    dsimp only
    by_cases hrenamed : (!io.renamed) = true
    · rw [if_pos hrenamed]
      exact ⟨closed, act, hheld, fun hok => absurd hok Bool.false_ne_true⟩
    rw [if_neg hrenamed]
    have hmoved := hheld.renameActive hdue hhandle hfile hbooks
    by_cases hopened : (!io.opened) = true
    · rw [if_pos hopened]
      exact ⟨_, _, hmoved, fun hok => absurd hok Bool.false_ne_true⟩
    · rw [if_neg hopened]
      exact ⟨_, _, hmoved.reopen io.pruned, fun _ => rfl⟩

theorem write (h : Stored s closed act pend []) (hhandle : s.writer.handle = .active)
    (failedAt : Option Nat) :
    ∃ extra', Stored (s.write failedAt).1 closed act pend extra' ∧
      (s.write failedAt).1.writer.handle = .active ∧
      ((s.write failedAt).2 = true → extra' = encode pend) := by
  unfold WalState.write
  rw [hhandle]
  refine ⟨failedAt.elim (encode pend) fun n => (encode pend).take n, { h with
    phase := ?_, initial := ?_ }, hhandle, ?_⟩
  · cases h.phase with
    | opened _ hfile hbooks =>
      refine .opened hhandle ?_ hbooks
      show s.dir.active.map _ = _
      rw [hfile, h.buf, append_nil, Option.map_some]
    | unrenamed hnull | renamed hnull =>
      rw [hhandle] at hnull
      cases hnull
  · cases failedAt with
    | none => exact prefix_rfl
    | some n => exact take_prefix n _
  · cases failedAt with
    | none => exact fun _ => rfl
    | some => exact fun hok => absurd hok Bool.false_ne_true

theorem commit (h : Stored s closed act pend (encode pend)) (hhandle : s.writer.handle = .active)
    (hne : pend ≠ []) : Stored s.commit closed (act ++ pend) [] [] := by
  refine { h with
    phase := ?_
    initial := prefix_rfl
    buf := rfl
    bufFirstSeq := rfl
    lastSeq := fun hnil => absurd rfl hnil
    retained := ?_ }
  · cases h.phase with
    | opened _ hfile hbooks =>
      refine .opened hhandle ?_ ⟨?_, ?_, fun _ => ?_⟩
      · show s.dir.active = _
        rw [hfile, encode_append, append_nil]
      · show s.writer.fileSize + s.writer.buf.length = _
        rw [hbooks.fileSize, h.buf, encode_append, length_append]
      · show s.writer.firstSeq.or s.writer.bufFirstSeq = _
        rw [hbooks.firstSeq, h.bufFirstSeq, List.head?_append, Option.map_or]
      · show s.writer.lastSeq = _
        rw [h.lastSeq hne, getLast_append_of_ne_nil _ hne]
    | unrenamed hnull | renamed hnull =>
      rw [hhandle] at hnull
      cases hnull
  · have hsame : s.commit.retained = s.retained := rfl
    rw [hsame, h.retained, append_nil]

theorem handle_of_not_due (h : Stored s closed act pend extra) (hdue : ¬ s.writer.Due) :
    s.writer.handle = .active := by
  cases h.phase with
  | opened hhandle => exact hhandle
  | unrenamed _ _ _ hdue' => exact absurd hdue' hdue
  | renamed _ _ hdue' => exact absurd hdue' hdue

theorem makeRoom (h : Stored s closed act pend []) (io : RotateIo) :
    ∃ closed' act', Stored (s.makeRoom io).1 closed' act' pend [] ∧
      ((s.makeRoom io).2 = true → (s.makeRoom io).1.writer.handle = .active) := by
  unfold WalState.makeRoom
  split_ifs with hdue
  · exact h.rotate hdue io
  · exact ⟨closed, act, h, fun _ => h.handle_of_not_due hdue⟩

/-- **A flush**, whichever of its calls fail. -/
theorem flush (h : Stored s closed act pend extra) (io : FlushIo) :
    ∃ closed' act' pend' extra', Stored (s.flush io).1 closed' act' pend' extra' := by
  unfold WalState.flush
  by_cases hempty : s.writer.buf = []
  · rw [if_pos hempty]
    exact ⟨closed, act, pend, extra, h⟩
  rw [if_neg hempty]
  have hpend : pend ≠ [] := by
    rintro rfl
    exact hempty h.buf
  obtain ⟨_, h₁, hclean⟩ := h.cutBack io
  generalize s.cutBack io = r₁ at h₁ hclean ⊢
  obtain ⟨s₁, ok₁⟩ := r₁
  unfold WalState.attempt
  by_cases hok₁ : ok₁ = true
  swap
  · rw [if_neg hok₁]
    exact ⟨_, _, _, _, h₁⟩
  rw [if_pos hok₁]
  obtain rfl := hclean hok₁
  dsimp only at h₁ ⊢
  obtain ⟨_, _, h₂, hhandle₂⟩ := h₁.makeRoom io.before
  generalize s₁.makeRoom io.before = r₂ at h₂ hhandle₂ ⊢
  obtain ⟨s₂, ok₂⟩ := r₂
  by_cases hok₂ : ok₂ = true
  swap
  · rw [if_neg hok₂]
    exact ⟨_, _, _, _, h₂⟩
  rw [if_pos hok₂]
  obtain ⟨_, h₃, hhandle₃, hwhole⟩ := h₂.write (hhandle₂ hok₂) io.failedAt
  generalize s₂.write io.failedAt = r₃ at h₃ hhandle₃ hwhole ⊢
  obtain ⟨s₃, ok₃⟩ := r₃
  by_cases hok₃ : ok₃ = true
  swap
  · rw [if_neg hok₃]
    exact ⟨_, _, _, _, h₃⟩
  rw [if_pos hok₃]
  obtain rfl := hwhole hok₃
  by_cases hsynced : (!io.synced) = true
  · rw [if_pos hsynced]
    exact ⟨_, _, _, _, h₃⟩
  rw [if_neg hsynced]
  have h₄ := h₃.commit hhandle₃ hpend
  by_cases hfull : s₃.commit.writer.maxFileSize ≤ s₃.commit.writer.fileSize
  · rw [if_pos hfull]
    have hdue : s₃.commit.writer.Due := by
      have hbuf : 0 < s₃.writer.buf.length := by
        rw [h₃.buf]
        exact length_pos_iff.2 fun hnil => hpend (encode_eq_nil.1 hnil)
      exact ⟨Nat.add_pos_right _ hbuf, hfull⟩
    obtain ⟨closed', act', h₅, -⟩ := h₄.rotate hdue io.after
    exact ⟨closed', act', _, _, h₅⟩
  · rw [if_neg hfull]
    exact ⟨_, _, _, _, h₄⟩

end Stored

end Rsx.Wal
