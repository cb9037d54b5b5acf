import Rsx.Lib.Run
import Rsx.Wal.Files

/-!
# The writer of the log

`WalWriter` of `wal.rs`, with the failures of its calls to the file system.  A call that fails ends
the flush that made it; the buffer stays, and the next flush tries again.
-/

namespace Rsx.Wal

variable [Crc32c]

inductive Handle
  | active
  | devNull
  deriving DecidableEq, Repr

structure WalWriter where
  nextSeq : Nat := 1
  buf : List UInt8 := []
  handle : Handle := .active
  fileSize : Nat
  firstSeq : Option Nat
  flushedSeq : Nat
  bufFirstSeq : Option Nat := none
  lastSeq : Nat := 0
  maxFileSize : Nat
  deriving DecidableEq, Repr

namespace WalWriter

/-- `WalWriter::new`, with the directory it leaves. -/
def new (d : WalDir) (maxFileSize : Nat) : Except WalError (WalDir × WalWriter) := do
  let bytes ← cutTornTail (d.active.getD [])
  let range := scanFileSeqRange bytes
  .ok ({ d with active := some bytes }, {
    fileSize := bytes.length
    firstSeq := range.map Prod.fst
    flushedSeq := range.elim 0 Prod.snd
    maxFileSize := maxFileSize })

variable (w : WalWriter)

def setNextSeq (seq : Nat) : WalWriter :=
  { w with nextSeq := seq, lastSeq := if w.lastSeq < seq - 1 then seq - 1 else w.lastSeq }

def prepare (record : CastRecord) : Option (WalWriter × Framed) :=
  if h : w.nextSeq < u64Max then
    some ({ w with nextSeq := w.nextSeq + 1 }, ⟨record, w.nextSeq, h⟩)
  else none

def limit : Nat :=
  max (min (w.maxFileSize * 2) u64Max) (256 * 1024)

/-- `append_framed`; `none` for `WouldBlock`. -/
def appendFramed (f : Framed) : Option WalWriter :=
  if w.limit < w.buf.length then none
  else some { w with
    lastSeq := f.seq
    bufFirstSeq := some (w.bufFirstSeq.getD f.seq)
    buf := w.buf ++ f.wire }

end WalWriter

/-- How the callers open a stream: `open_wal_writer` of mark, `EgressStream::open` of risk. -/
def openWalWriter (d : WalDir) (maxFileSize : Nat) : Except WalError (WalDir × WalWriter) := do
  let (d, w) ← WalWriter.new d maxFileSize
  .ok (d, d.oldestAndHighestSeq.elim w fun (_, highest) => w.setNextSeq (highest + 1))

/-! ## The file system -/

/-- Which calls of a rotation succeed, and which segments its pruning deletes. -/
structure RotateIo where
  synced : Bool := true
  devNull : Bool := true
  renamed : Bool := true
  opened : Bool := true
  pruned : SegmentFile → Bool := fun _ => false

/-- Which calls of a flush succeed.  A write that fails has written some bytes. -/
structure FlushIo where
  metadata : Bool := true
  setLen : Bool := true
  before : RotateIo := {}
  failedAt : Option Nat := none
  synced : Bool := true
  after : RotateIo := {}

/-- A stream and its writer.  `stalled` is a record that was refused and that its caller offers
again.  `appended` and `pruned` are not state of the program: the records that the writer took, or
found when it was opened, and the segments deleted since. -/
structure WalState where
  dir : WalDir
  writer : WalWriter
  stalled : Option Framed := none
  appended : List Framed := []
  pruned : List SegmentFile := []

def SegmentFile.Covers (segment : SegmentFile) (f : Framed) : Prop :=
  segment.firstSeq ≤ f.seq ∧ f.seq ≤ segment.lastSeq

instance (segment : SegmentFile) (f : Framed) : Decidable (segment.Covers f) := by
  unfold SegmentFile.Covers
  infer_instance

namespace WalState

variable (s : WalState)

def retained : List Framed :=
  s.appended.filter fun f => decide (¬ ∃ segment ∈ s.pruned, segment.Covers f)

def attempt (r : WalState × Bool) (f : WalState → WalState × Bool) : WalState × Bool :=
  if r.2 then f r.1 else r

def handleLen : Nat :=
  match s.writer.handle with
  | .active => (s.dir.active.getD []).length
  | .devNull => 0

/-- What a failed attempt left past the durable length is cut off. -/
def cutBack (io : FlushIo) : WalState × Bool :=
  if !io.metadata then (s, false)
  else if s.writer.fileSize < s.handleLen then
    if !io.setLen then (s, false)
    else ({ s with dir.active := s.dir.active.map (·.take s.writer.fileSize) }, true)
  else (s, true)

def renameActive (bytes : List UInt8) (firstSeq lastSeq : Nat) : WalState :=
  { s with
    dir.segments := (s.dir.segments.filter fun segment =>
      decide ((segment.firstSeq, segment.lastSeq) ≠ (firstSeq, lastSeq))) ++
        [⟨firstSeq, lastSeq, bytes⟩]
    dir.active := none }

/-- `rotate`, which ends with `prune_old_segments`. -/
def rotate (io : RotateIo) : WalState × Bool :=
  if !io.synced then (s, false)
  else if !io.devNull then (s, false)
  else
    let firstSeq := s.writer.firstSeq.getD s.writer.flushedSeq
    let lastSeq := s.writer.flushedSeq
    let s := { s with writer.handle := .devNull }
    match s.dir.active with
    | none => (s, false)
    | some bytes =>
      if !io.renamed then (s, false)
      else
        let s := s.renameActive bytes firstSeq lastSeq
        if !io.opened then (s, false)
        else
          ({ s with
            dir.segments := s.dir.segments.filter fun segment => !io.pruned segment
            dir.active := some []
            writer.handle := .active
            writer.fileSize := 0
            writer.firstSeq := none
            pruned := s.pruned ++ s.dir.segments.filter io.pruned }, true)

/-- A file with data in it is rotated before the buffer takes it to its limit. -/
def makeRoom (io : RotateIo) : WalState × Bool :=
  if 0 < s.writer.fileSize ∧ s.writer.maxFileSize ≤ s.writer.fileSize + s.writer.buf.length then
    s.rotate io
  else (s, true)

def write (failedAt : Option Nat) : WalState × Bool :=
  let bytes := failedAt.elim s.writer.buf fun n => s.writer.buf.take n
  let s :=
    match s.writer.handle with
    | .active => { s with dir.active := s.dir.active.map (· ++ bytes) }
    | .devNull => s
  (s, failedAt.isNone)

def commit : WalState :=
  { s with
    writer.fileSize := s.writer.fileSize + s.writer.buf.length
    writer.buf := []
    writer.firstSeq := s.writer.firstSeq.or s.writer.bufFirstSeq
    writer.bufFirstSeq := none
    writer.flushedSeq := s.writer.lastSeq }

/-- `flush`; the result says whether it returned without an error. -/
def flush (io : FlushIo) : WalState × Bool :=
  if s.writer.buf = [] then (s, true)
  else
    attempt (s.cutBack io) fun s =>
    attempt (s.makeRoom io.before) fun s =>
    attempt (s.write io.failedAt) fun s =>
    if !io.synced then (s, false)
    else
      let s := s.commit
      if s.writer.maxFileSize ≤ s.writer.fileSize then s.rotate io.after else (s, true)

/-- The files and the buffer, the active file up to its durable length. -/
def durable : List UInt8 :=
  s.dir.segments.flatMap SegmentFile.bytes ++ (s.dir.active.getD []).take s.writer.fileSize

def stored : List UInt8 :=
  s.dir.segments.flatMap SegmentFile.bytes ++ s.dir.active.getD []

def whole : List Framed :=
  fits Framed.wire s.retained s.stored.length

def cutAt (cut : Nat) : WalState :=
  { s with dir.active := s.dir.active.map (·.take cut) }

def crash (cut : Nat) : Option WalState :=
  let s := s.cutAt cut
  match openWalWriter s.dir s.writer.maxFileSize with
  | .error _ => none
  | .ok (dir, writer) => some { dir := dir, writer := writer, appended := s.whole }

end WalState

inductive WalAction
  | append (record : CastRecord)
  | retry
  | drop
  | flush (io : FlushIo)
  | crash (cut : Nat)

namespace WalState

def offer (s : WalState) (f : Framed) : WalState :=
  match s.writer.appendFramed f with
  | some w => { s with writer := w, stalled := none, appended := s.appended ++ [f] }
  | none => { s with stalled := some f }

/-- A caller numbers a record and appends it; one that is refused is offered again before the next
(`append_stalling`), or given up (mark). -/
def step (s : WalState) : WalAction → Option WalState
  | .append record =>
    match s.stalled with
    | some _ => none
    | none => (s.writer.prepare record).map fun (w, f) => { s with writer := w }.offer f
  | .retry => s.stalled.map fun f => s.offer f
  | .drop => some { s with stalled := none }
  | .flush io => some (s.flush io).1
  | .crash cut => s.crash cut

def start (maxFileSize : Nat) : WalState where
  dir := { active := some [] }
  writer := { fileSize := 0, firstSeq := none, flushedSeq := 0, maxFileSize := maxFileSize }

end WalState

end Rsx.Wal
