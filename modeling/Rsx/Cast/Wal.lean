import Mathlib

/-!
# The log on disk

`wal.rs` of `rsx-cast`: rotated segments and an active file, and the reader that walks them.  A
record is its sequence number with what the stream carries.  Frames and checksums are left out: a
reader takes a record that is not wholly there, at the end of the last file, for the end of the log.
-/

namespace Rsx.Cast

open List Option

variable {R : Type} {due targetSeq : Nat}

/-- A rotated file, named after the first and the last record it was closed with. -/
structure Segment (R : Type) where
  firstSeq : Nat
  lastSeq : Nat
  records : List (Nat × R)

/-- The directory of a stream, the oldest segment first.  A rotation renames the active file and
then creates a new one; in between there is none. -/
structure WalDir (R : Type) where
  segments : List (Segment R) := []
  active : Option (List (Nat × R)) := some []

inductive WalPath
  | segment (i : Nat)
  | active
  deriving DecidableEq, Repr

structure WalFileInfo where
  path : WalPath
  firstSeq : Nat
  lastSeq : Nat
  deriving DecidableEq, Repr

def activeSeq : Nat := 18446744073709551615

namespace WalDir

variable (d : WalDir R)

/-- The files in the order they were created.  A file keeps its place when it is renamed, so the
place stands for the open file. -/
def files : List (List (Nat × R)) :=
  d.segments.map Segment.records ++ d.active.toList

def records : List (Nat × R) :=
  d.files.flatten

def openPath : WalPath → Option Nat
  | .segment i => if i < d.segments.length then some i else none
  | .active => if d.active.isSome then some d.segments.length else none

/-- `list_wal_files_across`: sorted by the first sequence number, the active file last. -/
def listWalFiles : List WalFileInfo :=
  d.segments.mapIdx (fun i s => ⟨.segment i, s.firstSeq, s.lastSeq⟩) ++
    d.active.toList.map fun _ => ⟨.active, activeSeq, activeSeq⟩

def append (entry : Nat × R) : Option (WalDir R) :=
  d.active.map fun records => { d with active := some (records ++ [entry]) }

def renamed (first : Nat × R) (rest : List (Nat × R)) : WalDir R where
  segments := d.segments ++
    [⟨first.1, ((first :: rest).getLast (cons_ne_nil _ _)).1, first :: rest⟩]
  active := none

def rename : Option (WalDir R) :=
  match d.active with
  | some (first :: rest) => some (d.renamed first rest)
  | _ => none

def create : Option (WalDir R) :=
  match d.active with
  | none => some { d with active := some [] }
  | some _ => none

end WalDir

def pickStartIdx (files : List WalFileInfo) (targetSeq : Nat) : Nat :=
  if files = [] ∨ targetSeq = 0 then 0
  else
    (files.findIdx? fun f => f.path ≠ .active ∧ f.firstSeq ≤ targetSeq ∧ targetSeq ≤ f.lastSeq).getD
      (files.length - 1)

/-- `WalReader`.  The names are those of the moment it was opened. -/
structure WalReader where
  file : Option Nat
  files : List WalFileInfo
  fileIdx : Nat
  offset : Nat := 0
  targetSeq : Nat
  deriving DecidableEq, Repr

inductive Frame (R : Type)
  | record (entry : Nat × R) (reader : WalReader)
  | skipped (reader : WalReader)
  | advanced (reader : WalReader)
  | eof
  | notFound

namespace WalReader

/-- `open_from_seq`, once the files are listed.  `none` when the file is not there any more. -/
def openFromSeq (d : WalDir R) (files : List WalFileInfo) (targetSeq : Nat) : Option WalReader :=
  let idx := pickStartIdx files targetSeq
  match files[idx]? with
  | none => some { file := none, files := files, fileIdx := idx, targetSeq := targetSeq }
  | some info => (d.openPath info.path).map fun file =>
    { file := some file, files := files, fileIdx := idx, targetSeq := targetSeq }

variable (r : WalReader)

def advanceFile (d : WalDir R) : Frame R :=
  match r.files[r.fileIdx + 1]? with
  | none => .eof
  | some info =>
    match d.openPath info.path with
    | none => .notFound
    | some file => .advanced
        { r with file := some file, fileIdx := r.fileIdx + 1, offset := 0, targetSeq := 0 }

/-- One turn of the loop of `next`. -/
def next (d : WalDir R) : Frame R :=
  match r.file with
  | none => .eof
  | some file =>
    match (d.files[file]?.getD [])[r.offset]? with
    | some entry =>
      if entry.1 < r.targetSeq then .skipped { r with offset := r.offset + 1 }
      else .record entry { r with offset := r.offset + 1 }
    | none => r.advanceFile d

def readAll (d : WalDir R) : Nat → WalReader → Option (List (Nat × R))
  | 0, _ => none
  | fuel + 1, r =>
    match r.next d with
    | .record entry r => (readAll d fuel r).map (entry :: ·)
    | .skipped r => readAll d fuel r
    | .advanced r => readAll d fuel r
    | .eof => some []
    | .notFound => none

end WalReader

def WalDir.readFrom (d : WalDir R) (targetSeq : Nat) : Option (List (Nat × R)) := do
  let r ← WalReader.openFromSeq d d.listWalFiles targetSeq
  r.readAll d (d.records.length + d.files.length + 1)

/-! ## Where a reader stands -/

namespace WalDir

variable (d : WalDir R)

def start (i : Nat) : Nat :=
  ((d.files.take i).map length).sum

def fileLength (i : Nat) : Nat :=
  (d.files[i]?.getD []).length

/-- A log without gaps whose segments are named after what they hold. -/
structure Numbered : Prop where
  seq : ∀ p entry, d.records[p]? = some entry → entry.1 = p + 1
  named : ∀ i s, d.segments[i]? = some s →
    s.firstSeq = d.start i + 1 ∧ s.lastSeq = d.start i + s.records.length
  nonempty : d.files ≠ []

variable {d} {d' : WalDir R} {i p : Nat} {entry : Nat × R}

theorem start_succ (d : WalDir R) (i : Nat) : d.start (i + 1) = d.start i + d.fileLength i := by
  unfold start fileLength
  rw [take_add_one]
  cases h : d.files[i]? with
  | none | some => simp

theorem start_mono {j : Nat} (h : i ≤ j) : d.start i ≤ d.start j := by
  induction h with
  | refl => exact le_rfl
  | step _ ih => exact ih.trans (by rw [start_succ]; exact Nat.le_add_right _ _)

theorem start_length (d : WalDir R) : d.start d.files.length = d.records.length := by
  rw [start, take_length, records, length_flatten]

theorem start_le (d : WalDir R) (i : Nat) : d.start i ≤ d.records.length := by
  rcases le_total i d.files.length with h | h
  · rw [← start_length]
    exact start_mono h
  · rw [start, take_of_length_le h, records, length_flatten]

theorem fileLength_segment {s : Segment R} (h : d.segments[i]? = some s) :
    d.fileLength i = s.records.length := by
  have hlt : i < d.segments.length := (List.getElem?_eq_some_iff.1 h).1
  unfold fileLength files
  rw [List.getElem?_append_left (by simpa using hlt), List.getElem?_map, h]
  rfl

theorem getElem?_flatten {α : Type} {L : List (List α)} {l : List α} {o : Nat}
    (hl : L[i]? = some l) (ho : o < l.length) :
    L.flatten[((L.take i).map length).sum + o]? = l[o]? := by
  induction L generalizing i with
  | nil => simp at hl
  | cons head L ih =>
    cases i with
    | zero =>
      cases hl
      rw [flatten_cons, getElem?_append_left (by simpa using ho)]
      simp
    | succ i =>
      have hskip : (((head :: L).take (i + 1)).map length).sum + o =
          head.length + (((L.take i).map length).sum + o) := by
        simp [Nat.add_assoc]
      rw [hskip, flatten_cons, getElem?_append_right (Nat.le_add_right _ _),
        Nat.add_sub_cancel_left]
      exact ih (by simpa using hl)

theorem getElem?_file {o : Nat} (ho : o < d.fileLength i) :
    (d.files[i]?.getD [])[o]? = d.records[d.start i + o]? := by
  unfold fileLength at ho
  cases hl : d.files[i]? with
  | none => simp [hl] at ho
  | some =>
    rw [hl] at ho
    exact (getElem?_flatten hl ho).symm

end WalDir

/-- `files` are the first `m` segments and, with `a`, the active file. -/
structure Listing (d : WalDir R) (m : Nat) (a : Bool) (files : List WalFileInfo) : Prop where
  le : m ≤ d.segments.length
  eq : files = (d.segments.take m).mapIdx (fun i s => ⟨.segment i, s.firstSeq, s.lastSeq⟩) ++
    if a then [⟨.active, activeSeq, activeSeq⟩] else []

variable {d d' : WalDir R} {m : Nat} {a : Bool} {files : List WalFileInfo} {i : Nat}

theorem listing_listWalFiles (d : WalDir R) :
    Listing d d.segments.length d.active.isSome d.listWalFiles where
  le := le_rfl
  eq := by
    unfold WalDir.listWalFiles
    rw [take_length]
    cases d.active <;> rfl

theorem Listing.length (h : Listing d m a files) : files.length = m + if a then 1 else 0 := by
  rw [h.eq, length_append, length_mapIdx, length_take, Nat.min_eq_left h.le]
  cases a <;> rfl

theorem Listing.getElem_segment (h : Listing d m a files) (hi : i < m) :
    ∃ s, d.segments[i]? = some s ∧ files[i]? = some ⟨.segment i, s.firstSeq, s.lastSeq⟩ := by
  have hlt : i < d.segments.length := hi.trans_le h.le
  refine ⟨d.segments[i], getElem?_eq_getElem hlt, ?_⟩
  rw [h.eq, getElem?_append_left (by simp; omega), getElem?_mapIdx,
    getElem?_take_of_lt hi, getElem?_eq_getElem hlt]
  rfl

theorem Listing.getElem_active (h : Listing d m true files) :
    files[m]? = some ⟨.active, activeSeq, activeSeq⟩ := by
  have hlen : ((d.segments.take m).mapIdx fun i s =>
      (⟨.segment i, s.firstSeq, s.lastSeq⟩ : WalFileInfo)).length = m := by
    rw [length_mapIdx, length_take, Nat.min_eq_left h.le]
  rw [h.eq, getElem?_append_right hlen.le, hlen, Nat.sub_self]
  rfl

def Pending (d : WalDir R) (m : Nat) (a : Bool) : Prop :=
  a = true → m = d.segments.length ∧ d.active.isSome

theorem Listing.open_eq (h : Listing d m a files) (hpending : Pending d m a)
    (hi : i < files.length) : ∃ info, files[i]? = some info ∧ d.openPath info.path = some i := by
  have hlen := h.length
  rcases Nat.lt_or_ge i m with him | him
  · obtain ⟨_, -, hinfo⟩ := h.getElem_segment him
    exact ⟨_, hinfo, if_pos (him.trans_le h.le)⟩
  · cases a with
    | false => exact absurd hi (by simp [hlen]; omega)
    | true =>
      obtain ⟨hm, hsome⟩ := hpending rfl
      obtain rfl : i = m := by simp at hlen; omega
      refine ⟨_, h.getElem_active, ?_⟩
      rw [hm]
      exact if_pos hsome

/-- **Where a reader starts.**  The file holds the record `targetSeq`, or it is the last one and the
record comes later. -/
theorem Listing.pickStartIdx (h : Listing d m a files) (hd : d.Numbered) (hne : files ≠ [])
    (htarget : targetSeq = due + 1 ∨ targetSeq = 0 ∧ due = 0) :
    let i := Cast.pickStartIdx files targetSeq
    i < files.length ∧ d.start i ≤ due ∧ (due < d.start i + d.fileLength i ∨ targetSeq = 0 ∨
        i + 1 = files.length ∧ d.start m ≤ due) := by
  intro i
  have hpos : 0 < files.length := length_pos_iff.2 hne
  have hlen := h.length
  rcases htarget with rfl | ⟨rfl, rfl⟩
  swap
  · have hi : i = 0 := if_pos (.inr rfl)
    rw [hi]
    exact ⟨hpos, Nat.zero_le _, .inr (.inl rfl)⟩
  have hpick : i = (files.findIdx? fun f => f.path ≠ .active ∧ f.firstSeq ≤ due + 1 ∧
      due + 1 ≤ f.lastSeq).getD (files.length - 1) :=
    if_neg (by simp [hne])
  cases hfind : files.findIdx? fun f => f.path ≠ .active ∧ f.firstSeq ≤ due + 1 ∧
      due + 1 ≤ f.lastSeq with
  | some j =>
    rw [hfind] at hpick
    obtain ⟨hj, hholds, -⟩ := findIdx?_eq_some_iff_getElem.1 hfind
    obtain ⟨hpath, hfirst, hlast⟩ := of_decide_eq_true hholds
    have hij : i = j := hpick
    rw [hij]
    have hjm : j < m := by
      by_contra hcon
      cases a with
      | false => simp at hlen; omega
      | true =>
        obtain rfl : j = m := by simp at hlen; omega
        have := h.getElem_active
        rw [getElem?_eq_getElem hj] at this
        rw [some.inj this] at hpath
        exact hpath rfl
    obtain ⟨s, hs, hinfo⟩ := h.getElem_segment hjm
    rw [getElem?_eq_getElem hj] at hinfo
    rw [some.inj hinfo] at hfirst hlast
    dsimp only at hfirst hlast
    obtain ⟨hname, hname'⟩ := hd.named j s hs
    rw [WalDir.fileLength_segment hs]
    exact ⟨hj, by omega, .inl (by omega)⟩
  | none =>
    rw [hfind] at hpick
    have hlast : i = files.length - 1 := hpick
    -- No segment of the list holds the record, so it comes after all of them.
    have hafter : ∀ k ≤ m, d.start k ≤ due := by
      intro k
      induction k with
      | zero => exact fun _ => Nat.zero_le _
      | succ k ih =>
        intro hk
        obtain ⟨s, hs, hinfo⟩ := h.getElem_segment hk
        have hmiss := findIdx?_eq_none_iff.1 hfind _ (mem_of_getElem? hinfo)
        obtain ⟨_, _⟩ := hd.named k s hs
        rw [WalDir.start_succ, WalDir.fileLength_segment hs]
        simp only [ne_eq, reduceCtorEq, not_false_eq_true, true_and, decide_eq_false_iff_not,
          not_and_or, not_le] at hmiss
        omega
    refine ⟨by omega, ?_, .inr (.inr ⟨by omega, hafter m le_rfl⟩)⟩
    refine hafter i ?_
    cases a <;> simp at hlen <;> omega

/-- A reader that is due to hand over the record at position `due`.  It may still be before it, in
the file it was opened in. -/
structure Reading (d : WalDir R) (due m : Nat) (a : Bool) (r : WalReader) : Prop where
  listing : Listing d m a r.files
  file : r.file = some r.fileIdx
  idx : r.fileIdx < r.files.length
  pending : r.fileIdx < m → Pending d m a
  exists_file : r.fileIdx < d.files.length
  offset : r.offset ≤ d.fileLength r.fileIdx
  place : d.start r.fileIdx + r.offset = due ∧ r.targetSeq ≤ due + 1 ∨
    d.start r.fileIdx + r.offset < due ∧ r.targetSeq = due + 1 ∧
      (r.fileIdx + 1 = r.files.length ∨ due < d.start r.fileIdx + d.fileLength r.fileIdx)

theorem Listing.openFromSeq (h : Listing d m a files) (hd : d.Numbered) (hpending : Pending d m a)
    (hne : files ≠ [])
    (htarget : targetSeq = due + 1 ∨ targetSeq = 0 ∧ due = 0) :
    ∃ r, WalReader.openFromSeq d files targetSeq = some r ∧ Reading d due m a r ∧ r.files = files ∧
      (due < d.start r.fileIdx + d.fileLength r.fileIdx ∨ targetSeq = 0 ∨
        d.start m ≤ due ∧ r.fileIdx + 1 = files.length) := by
  obtain ⟨hidx, hstart, hcase⟩ := h.pickStartIdx hd hne htarget
  obtain ⟨_, hinfo, hopen⟩ := h.open_eq hpending hidx
  refine ⟨{ file := some (Cast.pickStartIdx files targetSeq), files := files
            fileIdx := Cast.pickStartIdx files targetSeq, targetSeq := targetSeq }, ?_, ?_, rfl, ?_⟩
  · unfold WalReader.openFromSeq
    simp only [hinfo, hopen, map_some]
  · have hlen := h.length
    have hfiles : d.files.length = d.segments.length + d.active.toList.length := by
      unfold WalDir.files
      rw [length_append, length_map]
    refine ⟨h, rfl, hidx, fun _ => hpending, ?_, Nat.zero_le _, ?_⟩
    · have hle := h.le
      show Cast.pickStartIdx files targetSeq < d.files.length
      cases a with
      | false => simp at hlen; omega
      | true =>
        obtain ⟨hm, hsome⟩ := hpending rfl
        obtain ⟨_, hactive⟩ := isSome_iff_exists.1 hsome
        rw [hactive] at hfiles
        simp at hlen hfiles
        omega
    · rcases htarget with rfl | ⟨rfl, rfl⟩
      · rcases Nat.lt_or_eq_of_le hstart with hlt | heq
        · refine .inr ⟨hlt, rfl, ?_⟩
          rcases hcase with hin | hzero | ⟨hlast, -⟩
          · exact .inr hin
          · exact absurd hzero (Nat.succ_ne_zero _)
          · exact .inl hlast
        · exact .inl ⟨heq, le_rfl⟩
      · exact .inl ⟨Nat.le_zero.1 hstart, Nat.zero_le _⟩
  · rcases hcase with hin | hzero | ⟨hlast, hm⟩
    · exact .inl hin
    · exact .inr (.inl hzero)
    · exact .inr (.inr ⟨hm, hlast⟩)

def WalReader.rest (d : WalDir R) (r : WalReader) : Nat :=
  d.records.length - (d.start r.fileIdx + r.offset) + (r.files.length - r.fileIdx)

/-- **One turn of the loop.**  The reader hands over the record that is due, gets nearer to it, or
is at the end of the last file it knows. -/
theorem Reading.next {due : Nat} {r : WalReader} (h : Reading d due m a r) (hd : d.Numbered) :
    (∃ entry r', r.next d = .record entry r' ∧ d.records[due]? = some entry ∧
      entry.1 = due + 1 ∧ Reading d (due + 1) m a r' ∧ r'.files = r.files ∧ r'.rest d < r.rest d) ∨
    (∃ r', (r.next d = .skipped r' ∨ r.next d = .advanced r') ∧ Reading d due m a r' ∧
      r'.files = r.files ∧ r'.rest d < r.rest d ∧
      (due < d.start r.fileIdx + d.fileLength r.fileIdx → r'.fileIdx = r.fileIdx)) ∨
    (r.next d = .eof ∧ r.fileIdx + 1 = r.files.length ∧ d.start r.files.length ≤ due) := by
  have hnext : d.start r.fileIdx + d.fileLength r.fileIdx ≤ d.records.length := by
    rw [← WalDir.start_succ]
    exact d.start_le _
  have hidx := h.idx
  rcases Nat.lt_or_eq_of_le h.offset with hlt | hend
  · -- There is a record at the offset.
    have hpos : d.start r.fileIdx + r.offset < d.records.length := by omega
    obtain ⟨entry, hentry⟩ : ∃ entry, d.records[d.start r.fileIdx + r.offset]? = some entry :=
      ⟨_, getElem?_eq_getElem hpos⟩
    have hseq := hd.seq _ _ hentry
    have hread : r.next d =
        if entry.1 < r.targetSeq then .skipped { r with offset := r.offset + 1 }
        else .record entry { r with offset := r.offset + 1 } := by
      unfold WalReader.next
      simp only [h.file, WalDir.getElem?_file hlt, hentry]
    have hrest : ({ r with offset := r.offset + 1 } : WalReader).rest d < r.rest d := by
      show d.records.length - (d.start r.fileIdx + (r.offset + 1)) + (r.files.length - r.fileIdx) <
        d.records.length - (d.start r.fileIdx + r.offset) + (r.files.length - r.fileIdx)
      omega
    rcases h.place with ⟨hat, htarget⟩ | ⟨hbefore, htarget, hwhere⟩
    · rw [if_neg (by omega)] at hread
      rw [hat] at hentry hseq
      refine .inl ⟨entry, _, hread, hentry, hseq, ?_, rfl, hrest⟩
      have hplace : d.start r.fileIdx + (r.offset + 1) = due + 1 := by omega
      exact ⟨h.listing, h.file, h.idx, h.pending, h.exists_file, hlt,
        .inl ⟨hplace, htarget.trans (Nat.le_succ _)⟩⟩
    · rw [if_pos (by omega)] at hread
      refine .inr (.inl ⟨_, .inl hread, ⟨h.listing, h.file, h.idx, h.pending, h.exists_file, hlt,
        ?_⟩, rfl, hrest, fun _ => rfl⟩)
      rcases Nat.lt_or_eq_of_le (Nat.succ_le_of_lt hbefore) with hlt' | heq
      · exact .inr ⟨by omega, htarget, hwhere⟩
      · exact .inl ⟨by omega, htarget.le⟩
  · -- The file is read to its end.
    have hnone : (d.files[r.fileIdx]?.getD [])[r.offset]? = none := by
      rw [getElem?_eq_none_iff]
      exact hend.ge
    have hread : r.next d = r.advanceFile d := by
      unfold WalReader.next
      simp only [h.file, hnone]
    rw [WalReader.advanceFile] at hread
    rcases Nat.lt_or_ge (r.fileIdx + 1) r.files.length with hmore | hlast
    · -- Another file follows, and the record that is due is its first.
      have hat : d.start r.fileIdx + r.offset = due := by
        rcases h.place with ⟨hat, -⟩ | ⟨hbefore, -, hlast | hin⟩
        · exact hat
        · omega
        · omega
      have hm : r.fileIdx < m := by
        have hlen := h.listing.length
        cases a <;> simp at hlen <;> omega
      obtain ⟨_, hinfo, hopen⟩ := h.listing.open_eq (h.pending hm) hmore
      rw [hinfo] at hread
      simp only [hopen] at hread
      have hexists : r.fileIdx + 1 < d.files.length := by
        have hlen := h.listing.length
        have hle := h.listing.le
        unfold WalDir.files
        rw [length_append, length_map]
        cases a with
        | false => simp at hlen; omega
        | true =>
          obtain ⟨hm, hsome⟩ := h.pending hm rfl
          obtain ⟨_, hactive⟩ := isSome_iff_exists.1 hsome
          rw [hactive]
          simp at hlen ⊢
          omega
      refine .inr (.inl ⟨_, .inr hread, ⟨h.listing, rfl, hmore, fun hlt => h.pending hm, hexists,
        Nat.zero_le _, .inl ⟨?_, Nat.zero_le _⟩⟩, rfl, ?_, fun hin => absurd hin (by omega)⟩)
      · show d.start (r.fileIdx + 1) + 0 = due
        rw [WalDir.start_succ]
        omega
      · show d.records.length - (d.start (r.fileIdx + 1) + 0) + (r.files.length - (r.fileIdx + 1)) <
          d.records.length - (d.start r.fileIdx + r.offset) + (r.files.length - r.fileIdx)
        rw [WalDir.start_succ]
        omega
    · refine .inr (.inr ⟨?_, by omega, ?_⟩)
      · rw [hread, getElem?_eq_none_iff.2 hlast]
      · have hlen : r.files.length = r.fileIdx + 1 := by omega
        rw [hlen, WalDir.start_succ]
        rcases h.place with ⟨_, -⟩ | ⟨hbefore, -⟩ <;> omega

/-! ## Reading a log that nobody writes -/

theorem Reading.readAll {due fuel : Nat} {r : WalReader} (h : Reading d due m a r)
    (hd : d.Numbered) (hall : d.files.length ≤ r.files.length) (hfuel : r.rest d < fuel) :
    r.readAll d fuel = some (d.records.drop due) := by
  induction fuel generalizing r due with
  | zero => exact absurd hfuel (Nat.not_lt_zero _)
  | succ fuel ih =>
    rw [WalReader.readAll]
    rcases h.next hd with ⟨_, r', hnext, hget, -, h', hfiles, hrest⟩ |
      ⟨r', hnext | hnext, h', hfiles, hrest, -⟩ | ⟨hnext, -, hend⟩
    · rw [hnext]
      simp only [ih h' (hfiles ▸ hall) (by omega), map_some]
      have hlt : due < d.records.length := (List.getElem?_eq_some_iff.1 hget).1
      rw [drop_eq_getElem_cons hlt]
      rw [List.getElem?_eq_getElem hlt] at hget
      rw [some.inj hget]
    · rw [hnext]
      exact ih h' (hfiles ▸ hall) (by omega)
    · rw [hnext]
      exact ih h' (hfiles ▸ hall) (by omega)
    · rw [hnext]
      have hle : d.records.length ≤ due := by
        rw [← d.start_length]
        exact (WalDir.start_mono hall).trans hend
      rw [drop_eq_nil_of_le hle]

theorem length_listWalFiles (d : WalDir R) : d.listWalFiles.length = d.files.length := by
  unfold WalDir.listWalFiles WalDir.files
  simp

/-- **Reading from a sequence number.**  Recovery sees the records from it on. -/
theorem WalDir.Numbered.readFrom (hd : d.Numbered) (targetSeq : Nat) :
    d.readFrom targetSeq = some (d.records.drop (targetSeq - 1)) := by
  have hne : d.listWalFiles ≠ [] := by
    intro hnil
    have := length_listWalFiles d
    rw [hnil] at this
    exact hd.nonempty (length_eq_zero_iff.1 this.symm)
  have htarget : targetSeq = targetSeq - 1 + 1 ∨ targetSeq = 0 ∧ targetSeq - 1 = 0 := by omega
  obtain ⟨_, hopen, hreading, hfiles, -⟩ := (listing_listWalFiles d).openFromSeq hd
    (fun hsome => ⟨rfl, hsome⟩) hne htarget
  unfold WalDir.readFrom
  rw [hopen]
  have hlen := length_listWalFiles d
  refine hreading.readAll hd (by rw [hfiles, hlen]) ?_
  unfold WalReader.rest
  rw [hfiles]
  omega

end Rsx.Cast
