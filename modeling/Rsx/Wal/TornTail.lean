import Rsx.Wal.ExactlyOnce

/-!
# A log that is cut

Wherever a crash cuts the active file, the writer that is opened next and the reader agree on what
is left: the longest run of whole records.  New records follow it with the next numbers.  -/

namespace Rsx.Wal

open List Option WalState SegmentFile Framed

section

variable [Crc32c]

/-! ## Reading a stream -/

section Reading

variable {closed : List (List Framed)} {fs : List Framed} {tail : List UInt8}

theorem readable_active (hbytes : Torn wire tail) :
    Readable ((closed.map segmentOf).map info ++ [activeInfo (encode fs ++ tail)])
      (closed.flatten ++ fs) := by
  induction closed with
  | nil => exact .last rfl hbytes
  | cons gs closed ih =>
    rw [flatten_cons, append_assoc]
    exact .cons rfl ih

theorem readable_closed (hne : closed ≠ []) :
    Readable ((closed.map segmentOf).map info) closed.flatten := by
  induction closed with
  | nil => exact absurd rfl hne
  | cons gs closed ih =>
    cases closed with
    | nil =>
      rw [flatten_singleton]
      exact .last (append_nil _).symm (.inl rfl)
    | cons hs closed =>
      exact .cons rfl (ih (cons_ne_nil hs closed))

theorem pickStartIdx_first {active : List WalFileInfo} (hne : ∀ gs ∈ closed, gs ≠ [])
    (hascending : Ascending closed.flatten) (hactive : closed = [] → active.length ≤ 1)
    {targetSeq : Nat} (htarget : ∀ f ∈ closed.flatten.head?, targetSeq = f.seq) :
    pickStartIdx ((closed.map segmentOf).map info ++ active) targetSeq = 0 := by
  unfold pickStartIdx
  split_ifs
  · rfl
  · cases closed with
    | nil =>
      have hlen := hactive rfl
      rw [map_nil, map_nil, nil_append]
      cases hfind : active.findIdx? fun f =>
          !f.isActive && decide (f.firstSeq ≤ targetSeq ∧ targetSeq ≤ f.lastSeq) with
      | none => exact Nat.sub_eq_zero_of_le hlen
      | some =>
        have := (findIdx?_eq_some_iff_getElem.1 hfind).1
        exact Nat.lt_one_iff.1 (this.trans_le hlen)
    | cons gs =>
      cases gs with
      | nil => exact absurd rfl (hne [] mem_cons_self)
      | cons f gs =>
        have hfirst : targetSeq = f.seq := htarget f rfl
        have hcovers : (segmentOf (f :: gs)).Covers f := by
          exact hascending.left.covers mem_cons_self
        rw [map_cons, map_cons, cons_append, findIdx?_cons, if_pos]
        · rfl
        · rw [hfirst]
          exact decide_eq_true hcovers

end Reading

namespace Stored

variable {s s' : WalState} {closed : List (List Framed)} {act pend : List Framed}
  {extra : List UInt8}

/-- **What a reader returns.**  The records that are whole on disk. -/
theorem readStream (h : Stored s closed act pend extra) {targetSeq : Nat}
    (htarget : ∀ f ∈ s.whole.head?, targetSeq = f.seq) :
    s.dir.readStream targetSeq = .ok (s.whole.map raw) := by
  obtain ⟨kept, tail, hfile, htorn, hascending, hwhole⟩ := h.split h.active_isPrefix
  change s.whole = closed.flatten ++ kept at hwhole
  rw [hwhole] at htarget ⊢
  have hfirst : ∀ f ∈ closed.flatten.head?, targetSeq = f.seq := by
    intro f hf
    refine htarget f ?_
    rw [head?_append, mem_def.1 hf]
    rfl
  have hdir : s.dir = ⟨closed.map segmentOf, s.dir.active⟩ := by
    rw [← h.segments]
  have hlist : s.dir.listWalFiles = (closed.map segmentOf).map info ++
      s.dir.active.toList.map activeInfo := by
    rw [hdir]
    exact listWalFiles_closed h.nonempty hascending.left _
  have hidx : pickStartIdx s.dir.listWalFiles targetSeq = 0 := by
    rw [hlist]
    refine pickStartIdx_first h.nonempty hascending.left (fun _ => ?_) hfirst
    cases s.dir.active <;> simp
  have hle : ∀ f ∈ closed.flatten ++ kept, targetSeq ≤ f.seq := by
    intro f hf
    generalize closed.flatten ++ kept = whole at htarget hascending hf
    cases whole with
    | nil => exact absurd hf not_mem_nil
    | cons first =>
      rw [htarget first rfl]
      rcases mem_cons.1 hf with rfl | hmem
      · exact le_rfl
      · exact ((pairwise_cons.1 hascending).1 f hmem).le
  have hfuel : (closed.flatten ++ kept).length + (s.dir.listWalFiles.length - 0) ≤
      (s.dir.listWalFiles.map fun f => f.bytes.length).sum + s.dir.listWalFiles.length + 1 := by
    have hbytes : (s.dir.listWalFiles.map fun f => f.bytes.length).sum = s.stored.length := by
      rw [hlist]
      unfold stored
      rw [h.segments]
      cases s.dir.active <;> simp [length_flatMap, Function.comp_def, info, activeInfo]
    have hcount := length_le_encode (closed.flatten ++ kept)
    have hfits : (encode s.whole).length ≤ s.stored.length := length_fits s.retained _
    rw [hwhole] at hfits
    omega
  unfold WalDir.readStream
  dsimp only
  rw [hidx]
  cases hactive : s.dir.active with
  | some bytes =>
    refine WalReader.readAll_drop ?_ hle hfuel
    rw [hlist, hactive]
    rw [hactive] at hfile
    rw [show bytes = encode kept ++ tail from hfile]
    exact readable_active htorn
  | none =>
    rw [hactive] at hfile
    have hkept : kept = [] := encode_eq_nil.1 (append_eq_nil_iff.1 hfile.symm).1
    rcases eq_or_ne closed [] with rfl | hne
    · rw [hlist, hactive, hkept]
      rfl
    · refine WalReader.readAll_drop ?_ hle hfuel
      rw [hlist, hactive, hkept, append_nil]
      exact (append_nil ((closed.map segmentOf).map info)).symm ▸
        readable_closed hne

theorem whole_of_flushed (h : Stored s closed act pend extra) (hbuf : s.writer.buf = []) :
    s.whole = s.retained := by
  have hpend : pend = [] := encode_eq_nil.1 (h.buf.symm.trans hbuf)
  refine fits_of_le ?_
  show (encode s.retained).length ≤ s.stored.length
  rw [h.retained, h.stored_eq, hpend]
  simp

end Stored

end

/-! ## Numbers after a crash -/

namespace WalState

variable {s s' s₀ : WalState}
  {action : WalAction} {prior added : List Framed} {base : Nat}

structure SameRecords (s s' : WalState) : Prop where
  appended : s'.appended = s.appended
  stalled : s'.stalled = s.stalled
  nextSeq : s'.writer.nextSeq = s.writer.nextSeq

theorem SameRecords.refl (s : WalState) : SameRecords s s :=
  ⟨rfl, rfl, rfl⟩

theorem SameRecords.trans {s'' : WalState} (h : SameRecords s s') (h' : SameRecords s' s'') :
    SameRecords s s'' :=
  ⟨h'.appended.trans h.appended, h'.stalled.trans h.stalled, h'.nextSeq.trans h.nextSeq⟩

theorem SameRecords.attempt {r : WalState × Bool} {f : WalState → WalState × Bool}
    (hr : SameRecords s r.1) (hf : ∀ s, SameRecords s (f s).1) :
    SameRecords s (WalState.attempt r f).1 := by
  unfold WalState.attempt
  split_ifs
  · exact hr.trans (hf r.1)
  · exact hr

theorem sameRecords_cutBack (s : WalState) (io : FlushIo) : SameRecords s (s.cutBack io).1 := by
  unfold cutBack
  split_ifs <;> exact ⟨rfl, rfl, rfl⟩

theorem sameRecords_rotate (s : WalState) (io : RotateIo) : SameRecords s (s.rotate io).1 := by
  unfold rotate
  dsimp only
  cases s.dir.active with
  | none => split_ifs <;> exact ⟨rfl, rfl, rfl⟩
  | some => dsimp only; split_ifs <;> exact ⟨rfl, rfl, rfl⟩

theorem sameRecords_write (s : WalState) (failedAt : Option Nat) :
    SameRecords s (s.write failedAt).1 := by
  unfold write
  cases s.writer.handle <;> exact ⟨rfl, rfl, rfl⟩

theorem sameRecords_flush (s : WalState) (io : FlushIo) : SameRecords s (s.flush io).1 := by
  unfold flush
  by_cases hempty : s.writer.buf = []
  · rw [if_pos hempty]
    exact .refl s
  rw [if_neg hempty]
  refine (sameRecords_cutBack s io).attempt fun s => ?_
  have hroom : SameRecords s (s.makeRoom io.before).1 := by
    unfold makeRoom
    split_ifs
    · exact sameRecords_rotate s io.before
    · exact .refl s
  refine hroom.attempt fun s => (sameRecords_write s io.failedAt).attempt fun s => ?_
  have hcommit : SameRecords s s.commit := ⟨rfl, rfl, rfl⟩
  dsimp only
  split_ifs
  · exact .refl s
  · exact hcommit.trans (sameRecords_rotate s.commit io.after)
  · exact hcommit

def Runs (_ : WalState) : WalAction → Prop
  | .crash _ => False
  | _ => True

/-- Neither a crash, nor a refused record that is given up. -/
def Stalls (_ : WalState) : WalAction → Prop
  | .crash _ => False
  | .drop => False
  | _ => True

/-- The records `added` after `prior` have the numbers from `base` on, and the next one is due. -/
structure Follows (prior added : List Framed) (base : Nat) (s : WalState) : Prop where
  appended : s.appended = prior ++ added
  numbered : added.map seq = range' base added.length
  nextSeq : s.writer.nextSeq = base + added.length + s.stalled.toList.length
  stalled : ∀ f ∈ s.stalled, f.seq = base + added.length

theorem Follows.of_same (h : Follows prior added base s)
    (hsame : SameRecords s s') : Follows prior added base s' := by
  refine ⟨hsame.appended.trans h.appended, h.numbered, ?_, ?_⟩
  · rw [hsame.nextSeq, hsame.stalled]
    exact h.nextSeq
  · rw [hsame.stalled]
    exact h.stalled

theorem follows_start (hstalled : s.stalled = none) : Follows s.appended [] s.writer.nextSeq s := by
  refine ⟨(append_nil _).symm, rfl, ?_, ?_⟩
  · rw [hstalled]
    rfl
  · rw [hstalled]
    intro f hf
    cases hf

variable [Crc32c]

theorem appended_offer (s : WalState) (f : Framed) :
    (s.offer f).appended = s.appended ++ [f] ∧ (s.offer f).stalled = none ∨
      (s.offer f).appended = s.appended ∧ (s.offer f).stalled = some f := by
  unfold offer
  cases s.writer.appendFramed f with
  | none => exact .inr ⟨rfl, rfl⟩
  | some => exact .inl ⟨rfl, rfl⟩

theorem nextSeq_offer (s : WalState) (f : Framed) :
    (s.offer f).writer.nextSeq = s.writer.nextSeq := by
  unfold offer WalWriter.appendFramed
  split_ifs <;> rfl

theorem isPrefix_step (hrest : s₀.appended <+: s.appended)
    (hruns : s.Runs action) (hstep : s.step action = some s') : s₀.appended <+: s'.appended := by
  have hoffer : ∀ s f, s₀.appended <+: appended s → s₀.appended <+: (s.offer f).appended := by
    intro s f h
    rcases s.appended_offer f with ⟨heq, -⟩ | ⟨heq, -⟩
    · rw [heq]
      exact h.trans (prefix_append _ _)
    · rw [heq]
      exact h
  cases action with
  | append =>
    rw [step] at hstep
    cases hstalled : s.stalled with
    | some =>
      rw [hstalled] at hstep
      cases hstep
    | none =>
      rw [hstalled] at hstep
      obtain ⟨⟨_, f⟩, -, rfl⟩ := map_eq_some_iff.1 hstep
      exact hoffer _ f hrest
  | retry =>
    obtain ⟨f, -, rfl⟩ := map_eq_some_iff.1 hstep
    exact hoffer s f hrest
  | drop =>
    cases hstep
    exact hrest
  | flush io =>
    cases hstep
    rw [(s.sameRecords_flush io).appended]
    exact hrest
  | crash => exact absurd hruns id

theorem follows_offer {f : Framed} (happended : s.appended = prior ++ added)
    (hseq : added.map seq = range' base added.length)
    (hnext : s.writer.nextSeq = base + added.length + 1) (hf : f.seq = base + added.length) :
    Follows prior (if (s.writer.appendFramed f).isSome then added ++ [f] else added) base
      (s.offer f) := by
  have hcount := s.nextSeq_offer f
  unfold offer at hcount ⊢
  cases happend : s.writer.appendFramed f with
  | some w =>
    rw [happend] at hcount
    refine ⟨?_, ?_, ?_, fun g hg => by cases hg⟩
    · rw [happended, append_assoc]
      rfl
    · show (added ++ [f]).map seq = range' base (added ++ [f]).length
      rw [map_append, hseq, length_append, length_singleton, range'_concat]
      simp [hf]
    · show w.nextSeq = base + (added ++ [f]).length + 0
      rw [length_append]
      exact hcount.trans hnext
  | none =>
    refine ⟨happended, hseq, hnext, fun g hg => ?_⟩
    cases hg
    exact hf

theorem Follows.step
    (h : Follows prior added base s) (hstalls : s.Stalls action) (hstep : s.step action = some s') :
    ∃ added', Follows prior added' base s' := by
  cases action with
  | append =>
    rw [step] at hstep
    cases hstalled : s.stalled with
    | some =>
      rw [hstalled] at hstep
      cases hstep
    | none =>
      rw [hstalled] at hstep
      have hnext := h.nextSeq
      rw [hstalled] at hnext
      obtain ⟨⟨_, f⟩, hprepare, rfl⟩ := map_eq_some_iff.1 hstep
      unfold WalWriter.prepare at hprepare
      split_ifs at hprepare
      obtain ⟨rfl, rfl⟩ := Prod.mk.inj (Option.some.inj hprepare)
      exact ⟨_, follows_offer h.appended h.numbered (congrArg (· + 1) hnext) hnext⟩
  | retry =>
    obtain ⟨f, hf, rfl⟩ := map_eq_some_iff.1 hstep
    have hnext := h.nextSeq
    rw [hf] at hnext
    exact ⟨_, follows_offer h.appended h.numbered hnext (h.stalled f hf)⟩
  | drop => exact absurd hstalls id
  | flush io =>
    cases hstep
    exact ⟨added, h.of_same (s.sameRecords_flush io)⟩
  | crash => exact absurd hstalls id

end WalState

/-! ## Recovery -/

def firstSeq (fs : List Framed) : Nat :=
  (fs.head?.map seq).getD 0

theorem eq_firstSeq {fs : List Framed} : ∀ f ∈ fs.head?, firstSeq fs = f.seq := by
  intro f hf
  rw [firstSeq, mem_def.1 hf]
  rfl

/-- **Torn tails.**  In every state of every run a crash may cut the active file anywhere.  The
stream opens again without an error; what is read from its first number on is the longest run of the
records of the stream that is whole in the bytes on disk; the next number is the one after the last
of them.  As long as there is no further crash the records that are appended follow, with the next
numbers unless a refused one is given up, and once they are flushed all are read. -/
theorem crash_recovers [Crc32c] {maxFileSize : Nat} {actions : List WalAction} {s : WalState}
    (hrun : run WalState.step (.start maxFileSize) actions = some s) (cut : Nat) :
    ∃ s', s.step (.crash cut) = some s' ∧
      (s'.appended <+: s.retained ∧ (encode s'.appended).length ≤ (s.cutAt cut).stored.length ∧
        ∀ longer, longer <+: s.retained →
          (encode longer).length ≤ (s.cutAt cut).stored.length → longer <+: s'.appended) ∧
      s'.dir.readStream (firstSeq s'.appended) = .ok (s'.appended.map Framed.raw) ∧
      s'.writer.nextSeq = (s'.appended.getLast?.map Framed.seq).getD 0 + 1 ∧
      ∀ {actions' s''}, run WalState.step s' actions' = some s'' →
        Along WalState.step WalState.Runs s' actions' →
        ∃ added, s''.appended = s'.appended ++ added ∧ Ascending s''.appended ∧
          (Along WalState.step WalState.Stalls s' actions' →
            added.map Framed.seq = List.range' s'.writer.nextSeq added.length) ∧
          (s''.writer.buf = [] → s''.dir.readStream (firstSeq s''.retained) =
            .ok (s''.retained.map Framed.raw)) := by
  obtain ⟨_, _, _, _, h⟩ := Stored.run hrun
  obtain ⟨s', _, hcrash, h', hwhole, hstalled, hpruned, hnext⟩ := h.crash cut
  have hretained : s'.retained = s'.appended := by
    unfold WalState.retained
    rw [hpruned]
    exact filter_eq_self.2 fun f _ => decide_eq_true (by simp)
  have hlast : s'.writer.nextSeq = (s'.appended.getLast?.map Framed.seq).getD 0 + 1 := by
    rw [hnext]
    rcases eq_or_ne s'.appended [] with hnil | hne
    · rw [hnil]
      rfl
    · rw [seqRange_of_ne_nil hne]
      rfl
  refine ⟨s', hcrash, ⟨?_, ?_, ?_⟩, ?_, hlast, ?_⟩
  · rw [hwhole]
    exact fits_isPrefix _ _
  · rw [hwhole]
    exact length_fits _ _
  · intro longer hinitial hle
    rw [hwhole]
    exact fits_longest hinitial hle
  · have hread := h'.whole_of_flushed h'.buf
    rw [← hretained, ← hread]
    exact h'.readStream eq_firstSeq
  · intro actions' s'' hrun' hruns
    have hall : run WalState.step (.start maxFileSize) (actions ++ .crash cut :: actions') =
        some s'' := by
      rw [run_append, hrun]
      exact (congrArg (Option.bind · _) hcrash).trans hrun'
    obtain ⟨_, _, _, _, h''⟩ := Stored.run hall
    obtain ⟨added, hadded⟩ := run_invariant (I := fun s => s'.appended <+: s.appended)
      (fun hrest hok hstep => WalState.isPrefix_step hrest hok hstep) prefix_rfl hruns hrun'
    refine ⟨added, hadded.symm, h''.ascending, fun hstalls => ?_, fun hbuf => ?_⟩
    · obtain ⟨_, hfollows⟩ := run_invariant
        (I := fun s => ∃ added, WalState.Follows s'.appended added s'.writer.nextSeq s)
        (fun hfollows hok hstep => hfollows.elim fun _ hfollows => hfollows.step hok hstep)
        ⟨[], WalState.follows_start hstalled⟩ hstalls hrun'
      rw [append_cancel_left (hadded.trans hfollows.appended)]
      exact hfollows.numbered
    · have hread := h''.whole_of_flushed hbuf
      rw [← hread]
      exact h''.readStream eq_firstSeq

open ByteCount

/-- The crash cuts the second of two records; the third gets its number. -/
theorem crash_recovers_midRecord :
    ∃ s s', run WalState.step (.start 1000) [.append (.bare 1), .append (.bare 2), .flush {}] =
        some s ∧ s.step (.crash 40) = some s' ∧
      s'.dir.readStream 1 = .ok [(⟨.bare 1, 1, by decide⟩ : Framed).raw] ∧
      s'.writer.nextSeq = 2 := by
  obtain ⟨s, hs, s', hs', happended⟩ : ∃ s, run WalState.step (.start 1000)
      [.append (.bare 1), .append (.bare 2), .flush {}] = some s ∧
      ∃ s', s.step (.crash 40) = some s' ∧ s'.appended = [⟨.bare 1, 1, by decide⟩] := by
    decide +kernel
  obtain ⟨_, hcrash, -, hread, hnext, -⟩ := crash_recovers hs 40
  obtain rfl := some.inj (hs'.symm.trans hcrash)
  rw [happended] at hread hnext
  exact ⟨s, s', hs, hs', hread, hnext⟩

end Rsx.Wal
