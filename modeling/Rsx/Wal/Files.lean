import Rsx.Wal.Format

/-!
# The files of a stream

`wal.rs`: the directory of a stream, the scans of one file, and the reader that goes through all of
them.  Nothing is written while a list of files is in use, so a path stands for its bytes.
-/

namespace Rsx.Wal

open List Option Framed

structure SegmentFile where
  firstSeq : Nat
  lastSeq : Nat
  bytes : List UInt8
  deriving DecidableEq, Repr

/-- The directory of a stream.  Between the two halves of a rotation there is no active file. -/
structure WalDir where
  segments : List SegmentFile := []
  active : Option (List UInt8) := none
  deriving DecidableEq, Repr

structure WalFileInfo where
  firstSeq : Nat
  lastSeq : Nat
  isActive : Bool
  bytes : List UInt8
  deriving DecidableEq, Repr

def SegmentFile.info (s : SegmentFile) : WalFileInfo :=
  ⟨s.firstSeq, s.lastSeq, false, s.bytes⟩

def activeInfo (bytes : List UInt8) : WalFileInfo :=
  ⟨u64Max, u64Max, true, bytes⟩

def WalDir.listWalFiles (d : WalDir) : List WalFileInfo :=
  (d.segments.map SegmentFile.info ++ d.active.toList.map activeInfo).insertionSort
    fun f g => f.firstSeq ≤ g.firstSeq

theorem WalDir.listWalFiles_eq {d : WalDir}
    (hsorted : (d.segments.map SegmentFile.firstSeq).Pairwise (· ≤ ·))
    (hbound : ∀ s ∈ d.segments, s.firstSeq ≤ u64Max) :
    d.listWalFiles = d.segments.map SegmentFile.info ++ d.active.toList.map activeInfo := by
  refine Pairwise.insertionSort_eq (pairwise_append.2 ⟨?_, ?_, ?_⟩)
  · exact pairwise_map.2 (pairwise_map.1 hsorted)
  · cases d.active with
    | none => exact .nil
    | some => exact pairwise_singleton _ _
  · intro f hf g hg
    obtain ⟨s, hs, rfl⟩ := mem_map.1 hf
    obtain ⟨_, -, rfl⟩ := mem_map.1 hg
    exact hbound s hs

/-! ## Scans -/

variable [Crc32c]

def scanNext (rest : List UInt8) : Option (RawWalRecord × List UInt8) := do
  let (headerBuf, rest) ← readExact rest WalHeader.size
  let header ← WalHeader.fromBytes headerBuf
  let (payload, rest) ← readExact rest header.len.toNat
  some (⟨header, payload⟩, rest)

theorem scanNext_wire (f : Framed) (rest : List UInt8) :
    scanNext (f.wire ++ rest) = some (f.raw, rest) := by
  have hbytes : f.wire ++ rest = f.raw.header.toBytes ++ (f.payload ++ rest) :=
    append_assoc _ _ _
  unfold scanNext
  rw [hbytes, readExact_append (WalHeader.length_toBytes _), bind_eq_bind, bind_some]
  dsimp only
  rw [f.fromBytes_raw, bind_eq_bind, bind_some, f.toNat_len, readExact_append rfl]
  rfl

theorem scanNext_torn {tail : List UInt8} (htorn : Torn wire tail) : scanNext tail = none := by
  unfold scanNext
  rcases htorn with rfl | ⟨f, hinitial, hshort⟩
  · rfl
  · rcases readExact_torn hinitial hshort with hheader | ⟨rest, hheader, hpayload⟩
    · rw [hheader]
      rfl
    · rw [hheader, bind_eq_bind, bind_some]
      dsimp only
      rw [f.fromBytes_raw, bind_eq_bind, bind_some, hpayload]
      rfl

/-- The range of the numbers seen so far, with one more range. -/
def widen (range : Option (Nat × Nat)) (lo hi : Nat) : Option (Nat × Nat) :=
  some (range.elim (lo, hi) fun (oldest, highest) => (min oldest lo, max highest hi))

/-- The loop of `scan_file_seq_range`, which stops at the first record that is bad. -/
def scanSeqRange : Nat → List UInt8 → Option (Nat × Nat) → Option (Nat × Nat)
  | 0, _, range => range
  | fuel + 1, rest, range =>
    match scanNext rest with
    | none => range
    | some (r, rest) =>
      if computeCrc32 r.payload ≠ r.header.crc32 then range
      else scanSeqRange fuel rest
        ((extractSeq r.payload).elim range fun seq => widen range seq seq)

def scanFileSeqRange (file : List UInt8) : Option (Nat × Nat) :=
  scanSeqRange (file.length + 1) file none

/-- The loop of `scan_file_for_seq`, which goes on after a bad checksum. -/
def scanForSeq : Nat → List UInt8 → Nat → Option RawWalRecord
  | 0, _, _ => none
  | fuel + 1, rest, targetSeq =>
    match scanNext rest with
    | none => none
    | some (r, rest) =>
      if computeCrc32 r.payload ≠ r.header.crc32 then scanForSeq fuel rest targetSeq
      else
        match extractSeq r.payload with
        | none => scanForSeq fuel rest targetSeq
        | some seq =>
          if seq = targetSeq then some r
          else if targetSeq < seq then none
          else scanForSeq fuel rest targetSeq

def scanFileForSeq (file : List UInt8) (targetSeq : Nat) : Option RawWalRecord :=
  scanForSeq (file.length + 1) file targetSeq

def cutFrom (file : List UInt8) : Nat → Nat → Except WalError (List UInt8)
  | 0, _ => .ok file
  | fuel + 1, offset =>
    match readFrame file offset with
    | .error e => .error e
    | .ok (.record r) => cutFrom file fuel (offset + r.total)
    | .ok .eof => .ok file
    | .ok (.bad _ stop) => .ok (if isTornTail file stop then file.take offset else file)

def cutTornTail (file : List UInt8) : Except WalError (List UInt8) :=
  cutFrom file (file.length + 1) 0

def pickFileForSeq (files : List WalFileInfo) (targetSeq : Nat) : Option WalFileInfo :=
  (files.find? fun f => !f.isActive && decide (f.firstSeq ≤ targetSeq ∧ targetSeq ≤ f.lastSeq)).or
    (files.find? (·.isActive))

namespace WalDir

variable (d : WalDir)

def readRecordAtSeq (targetSeq : Nat) : Option RawWalRecord :=
  (pickFileForSeq d.listWalFiles targetSeq).bind fun f => scanFileForSeq f.bytes targetSeq

def oldestAndHighestSeq : Option (Nat × Nat) :=
  d.listWalFiles.foldl (fun range f =>
    if f.isActive then (scanFileSeqRange f.bytes).elim range fun (lo, hi) => widen range lo hi
    else widen range f.firstSeq f.lastSeq) none

end WalDir

/-- Numbers that only grow, as in every file of a stream. -/
def Ascending (fs : List Framed) : Prop :=
  fs.Pairwise fun f g => f.seq < g.seq

section Scans

variable {fs : List Framed} {tail : List UInt8}
  {fuel : Nat}

theorem scanSeqRange_encode (htorn : Torn wire tail) (hfuel : fs.length < fuel)
    (range : Option (Nat × Nat)) :
    scanSeqRange fuel (encode fs ++ tail) range =
      fs.foldl (fun range f => widen range f.seq f.seq) range := by
  induction fs generalizing fuel range with
  | nil =>
    cases fuel with
    | zero => rfl
    | succ =>
      rw [encode_nil, nil_append, scanSeqRange, scanNext_torn htorn]
      rfl
  | cons f fs ih =>
    cases fuel with
    | zero => exact absurd hfuel (Nat.not_lt_zero _)
    | succ =>
      rw [encode_cons, append_assoc, scanSeqRange, scanNext_wire]
      dsimp only
      rw [if_neg (not_not.2 f.crc_raw), ih (Nat.lt_of_succ_lt_succ hfuel)]
      have hseq : extractSeq f.raw.payload = some f.seq := f.extractSeq_payload
      rw [hseq]
      rfl

omit [Crc32c] in
theorem foldl_widen (f : Framed) (hascending : Ascending (f :: fs)) {lo hi : Nat} (hlo : lo ≤ f.seq)
    (hhi : hi ≤ f.seq) :
    (f :: fs).foldl (fun range f => widen range f.seq f.seq) (some (lo, hi)) =
      some (lo, ((f :: fs).getLast (cons_ne_nil f fs)).seq) := by
  induction fs generalizing f hi with
  | nil =>
    rw [getLast_singleton]
    show some (min lo f.seq, max hi f.seq) = _
    rw [Nat.min_eq_left hlo, Nat.max_eq_right hhi]
  | cons g fs ih =>
    obtain ⟨hfirst, hrest⟩ := pairwise_cons.1 hascending
    have hlt := hfirst g mem_cons_self
    show (g :: fs).foldl _ (some (min lo f.seq, max hi f.seq)) = _
    rw [Nat.min_eq_left hlo, Nat.max_eq_right hhi]
    exact ih g hrest (hlo.trans hlt.le) hlt.le

def seqRange (fs : List Framed) : Option (Nat × Nat) :=
  fs.head?.bind fun first => fs.getLast?.map fun last => (first.seq, last.seq)

variable (htorn : Torn wire tail)
include htorn

theorem scanFileSeqRange_encode (hascending : Ascending fs) :
    scanFileSeqRange (encode fs ++ tail) = seqRange fs := by
  have hfuel : fs.length < (encode fs ++ tail).length + 1 := by
    have := length_le_encode fs
    rw [length_append]
    omega
  unfold scanFileSeqRange seqRange
  rw [scanSeqRange_encode htorn hfuel]
  cases fs with
  | nil => rfl
  | cons f fs =>
    cases fs with
    | nil => rfl
    | cons g fs =>
      obtain ⟨hfirst, hrest⟩ := pairwise_cons.1 hascending
      have hlt := hfirst g mem_cons_self
      exact foldl_widen g hrest hlt.le hlt.le

theorem scanForSeq_encode (hascending : Ascending fs) (hfuel : fs.length < fuel) (targetSeq : Nat) :
    scanForSeq fuel (encode fs ++ tail) targetSeq =
      (fs.find? fun f => f.seq = targetSeq).map raw := by
  induction fs generalizing fuel with
  | nil =>
    cases fuel with
    | zero => rfl
    | succ =>
      rw [encode_nil, nil_append, scanForSeq, scanNext_torn htorn]
      rfl
  | cons f fs ih =>
    cases fuel with
    | zero => exact absurd hfuel (Nat.not_lt_zero _)
    | succ =>
      obtain ⟨hfirst, hrest⟩ := pairwise_cons.1 hascending
      have hseq : extractSeq f.raw.payload = some f.seq := f.extractSeq_payload
      rw [encode_cons, append_assoc, scanForSeq, scanNext_wire]
      dsimp only
      rw [if_neg (not_not.2 f.crc_raw), hseq]
      dsimp only
      rcases eq_or_ne f.seq targetSeq with heq | hne
      · rw [if_pos heq, find?_cons, decide_eq_true heq]
        rfl
      · rw [if_neg hne, find?_cons, decide_eq_false hne]
        split_ifs with hpast
        · -- The numbers only grow, so the target does not come any more.
          have hmissing : fs.find? (fun f => f.seq = targetSeq) = none := by
            refine find?_eq_none.2 fun g hg => ?_
            have := hfirst g hg
            simp only [decide_eq_true_eq]
            omega
          rw [hmissing, map_none]
        · exact ih hrest (Nat.lt_of_succ_lt_succ hfuel)

theorem scanFileForSeq_encode (hascending : Ascending fs) (targetSeq : Nat) :
    scanFileForSeq (encode fs ++ tail) targetSeq =
      (fs.find? fun f => f.seq = targetSeq).map raw := by
  refine scanForSeq_encode htorn hascending ?_ targetSeq
  have := length_le_encode fs
  rw [length_append]
  omega

theorem cutFrom_encode (done : List Framed) (hfuel : fs.length < fuel) :
    cutFrom (encode (done ++ fs) ++ tail) fuel (encode done).length =
      .ok (encode (done ++ fs)) := by
  induction fs generalizing done fuel with
  | nil =>
    cases fuel with
    | zero => exact absurd hfuel (Nat.not_lt_zero _)
    | succ =>
      rw [append_nil]
      rcases eq_or_ne tail [] with rfl | hne
      · rw [append_nil, cutFrom, readFrame_end]
      · obtain ⟨_, hbad⟩ := readFrame_torn (encode done) htorn hne
        rw [cutFrom, hbad]
        exact congrArg Except.ok ((if_pos rfl).trans take_left)
  | cons f fs ih =>
    cases fuel with
    | zero => exact absurd hfuel (Nat.not_lt_zero _)
    | succ =>
      have hfile : encode (done ++ f :: fs) ++ tail =
          encode done ++ (f.wire ++ (encode fs ++ tail)) := by
        rw [encode_append, encode_cons, append_assoc, append_assoc]
      have hnext : (encode done).length + f.raw.total = (encode (done ++ [f])).length := by
        rw [encode_append, length_append, encode_cons, encode_nil, append_nil, f.length_wire]
      have hsplit : done ++ f :: fs = done ++ [f] ++ fs := by
        rw [append_assoc]
        rfl
      have hframe : readFrame (encode (done ++ f :: fs) ++ tail) (encode done).length =
          .ok (.record f.raw) := by
        rw [hfile, readFrame_wire]
      rw [cutFrom, hframe]
      dsimp only
      rw [hnext, hsplit]
      exact ih (done ++ [f]) (Nat.lt_of_succ_lt_succ hfuel)

theorem cutTornTail_encode : cutTornTail (encode fs ++ tail) = .ok (encode fs) := by
  refine cutFrom_encode htorn [] ?_
  have := length_le_encode fs
  rw [length_append]
  omega

end Scans

/-! ## Reader -/

def pickStartIdx (files : List WalFileInfo) (targetSeq : Nat) : Nat :=
  if files = [] ∨ targetSeq = 0 then 0
  else (files.findIdx? fun f =>
    !f.isActive && decide (f.firstSeq ≤ targetSeq ∧ targetSeq ≤ f.lastSeq)).getD (files.length - 1)

/-- `WalReader`; the open file is the one at `fileIdx`. -/
structure WalReader where
  files : List WalFileInfo
  fileIdx : Nat
  offset : Nat := 0
  targetSeq : Nat

/-- What a turn of the loop of `next` ends with. -/
inductive Turn
  | record (r : RawWalRecord) (reader : WalReader)
  | again (reader : WalReader)
  | eof
  | error (e : WalError)

namespace WalReader

def turn (r : WalReader) : Turn :=
  match r.files[r.fileIdx]? with
  | none => .eof
  | some f =>
    match readFrame f.bytes r.offset with
    | .error e => .error e
    | .ok (.record record) =>
      let r := { r with offset := r.offset + record.total }
      if (extractSeq record.payload).any (· < r.targetSeq) then .again r else .record record r
    | .ok .eof =>
      -- `advance_file`
      let r := { r with fileIdx := r.fileIdx + 1, offset := 0, targetSeq := 0 }
      if r.fileIdx < r.files.length then .again r else .eof
    | .ok (.bad what stop) =>
      if r.fileIdx + 1 = r.files.length ∧ isTornTail f.bytes stop then .eof
      else .error (.corrupt what r.offset)

def readAll : Nat → WalReader → Except WalError (List RawWalRecord)
  | 0, _ => .ok []
  | fuel + 1, r =>
    match r.turn with
    | .record record r => (readAll fuel r).map (record :: ·)
    | .again r => readAll fuel r
    | .eof => .ok []
    | .error e => .error e

end WalReader

/-- A reader that is opened at `targetSeq` and read to the end.  A turn takes a byte or a file. -/
def WalDir.readStream (d : WalDir) (targetSeq : Nat) : Except WalError (List RawWalRecord) :=
  let files := d.listWalFiles
  let reader : WalReader :=
    { files := files, fileIdx := pickStartIdx files targetSeq, targetSeq := targetSeq }
  reader.readAll ((files.map fun f => f.bytes.length).sum + files.length + 1)

/-- Files that hold `fs`: only the last may end in a record that is not whole. -/
inductive Readable : List WalFileInfo → List Framed → Prop
  | last {file : WalFileInfo} {fs : List Framed} {tail : List UInt8}
      (bytes : file.bytes = encode fs ++ tail) (torn : Torn wire tail) : Readable [file] fs
  | cons {file : WalFileInfo} {files : List WalFileInfo} {fs gs : List Framed}
      (bytes : file.bytes = encode fs) (rest : Readable files gs) : Readable (file :: files)
      (fs ++ gs)

namespace WalReader

variable {files : List WalFileInfo} {file : WalFileInfo} {idx targetSeq fuel : Nat}

theorem readAll_file (hfile : files[idx]? = some file) (done : List Framed) {todo : List Framed}
    {tail : List UInt8} (hbytes : file.bytes = encode (done ++ todo) ++ tail)
    (htarget : ∀ f ∈ todo, targetSeq ≤ f.seq) (fuel : Nat) :
    readAll (fuel + todo.length) ⟨files, idx, (encode done).length, targetSeq⟩ =
      (readAll fuel ⟨files, idx, (encode (done ++ todo)).length, targetSeq⟩).map
        (todo.map raw ++ ·) := by
  induction todo generalizing done with
  | nil =>
    rw [append_nil]
    cases readAll fuel ⟨files, idx, (encode done).length, targetSeq⟩ <;> rfl
  | cons f todo ih =>
    have hframe : readFrame file.bytes (encode done).length = .ok (.record f.raw) := by
      rw [hbytes, encode_append, encode_cons, append_assoc, append_assoc, readFrame_wire]
    have hnext : (encode done).length + f.raw.total = (encode (done ++ [f])).length := by
      rw [encode_append, length_append, encode_cons, encode_nil, append_nil, f.length_wire]
    have hsplit : done ++ f :: todo = done ++ [f] ++ todo := by
      rw [append_assoc]
      rfl
    have hturn : turn ⟨files, idx, (encode done).length, targetSeq⟩ =
        .record f.raw ⟨files, idx, (encode (done ++ [f])).length, targetSeq⟩ := by
      have hseq : extractSeq f.raw.payload = some f.seq := f.extractSeq_payload
      have hle := htarget f mem_cons_self
      unfold turn
      rw [hfile]
      dsimp only
      rw [hframe]
      dsimp only
      rw [hseq, if_neg (by simpa using hle), hnext]
    rw [length_cons, ← Nat.add_assoc, readAll, hturn]
    dsimp only
    rw [ih (done ++ [f]) (by rw [hbytes, hsplit]) fun g hg => htarget g (.tail f hg), hsplit]
    cases readAll fuel ⟨files, idx, (encode (done ++ [f] ++ todo)).length, targetSeq⟩ <;> rfl

/-- **What a reader returns.**  From the start of a file, the records of that file and of those
after it. -/
theorem readAll_drop {fs : List Framed} (h : Readable (files.drop idx) fs)
    (htarget : ∀ f ∈ fs, targetSeq ≤ f.seq)
    (hfuel : fs.length + (files.length - idx) ≤ fuel) :
    readAll fuel ⟨files, idx, 0, targetSeq⟩ = .ok (fs.map raw) := by
  generalize hdrop : files.drop idx = rest at h
  induction h generalizing idx targetSeq fuel with
  | @last file fs tail hbytes htorn =>
    have hlen : files.length - idx = 1 := by rw [← length_drop, hdrop]; rfl
    have hfile : files[idx]? = some file := by
      rw [← Nat.add_zero idx, ← getElem?_drop, hdrop]
      rfl
    obtain ⟨k, rfl⟩ := Nat.exists_eq_add_of_le' hfuel
    have hread := readAll_file hfile [] hbytes htarget (k + (files.length - idx))
    rw [show k + (fs.length + (files.length - idx)) = k + (files.length - idx) + fs.length by omega]
    refine hread.trans ?_
    have hend : readAll (k + (files.length - idx))
        ⟨files, idx, (encode ([] ++ fs)).length, targetSeq⟩ = .ok [] := by
      rw [hlen, readAll]
      have hturn : turn ⟨files, idx, (encode ([] ++ fs)).length, targetSeq⟩ = .eof := by
        unfold turn
        rw [hfile, nil_append]
        dsimp only
        rw [hbytes]
        rcases eq_or_ne tail [] with rfl | hne
        · rw [append_nil, readFrame_end]
          exact if_neg (by omega)
        · obtain ⟨_, hbad⟩ := readFrame_torn (encode fs) htorn hne
          rw [hbad]
          exact if_pos ⟨by omega, rfl⟩
      rw [hturn]
    rw [hend]
    exact congrArg Except.ok (append_nil _)
  | @cons file rest fs gs hbytes hreadable ih =>
    have hlen : files.length - idx = rest.length + 1 := by rw [← length_drop, hdrop]; rfl
    have hfile : files[idx]? = some file := by
      rw [← Nat.add_zero idx, ← getElem?_drop, hdrop]
      rfl
    have hdrop' : files.drop (idx + 1) = rest := by
      rw [← drop_drop, hdrop]
      rfl
    have hpos : 0 < rest.length := by cases hreadable <;> exact Nat.succ_pos _
    rw [length_append] at hfuel
    obtain ⟨k, rfl⟩ := Nat.exists_eq_add_of_le' hfuel
    have hwhole : file.bytes = encode ([] ++ fs) ++ [] := by
      rw [hbytes, append_nil]
      rfl
    have hread := readAll_file hfile [] hwhole
      (fun f hf => htarget f (mem_append_left gs hf))
      (k + (gs.length + (files.length - (idx + 1))) + 1)
    rw [show k + (fs.length + gs.length + (files.length - idx)) =
      k + (gs.length + (files.length - (idx + 1))) + 1 + fs.length by omega]
    refine hread.trans ?_
    have hturn : turn ⟨files, idx, (encode ([] ++ fs)).length, targetSeq⟩ =
        .again ⟨files, idx + 1, 0, 0⟩ := by
      unfold turn
      rw [hfile, nil_append]
      dsimp only
      rw [hbytes, readFrame_end]
      exact if_pos (by omega)
    rw [readAll, hturn]
    dsimp only
    rw [ih (fun _ _ => Nat.zero_le _) (Nat.le_add_left _ k) hdrop']
    exact congrArg Except.ok map_append.symm

end WalReader

end Rsx.Wal
