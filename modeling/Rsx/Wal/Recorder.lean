import Rsx.Wal.Layout

/-!
# The recorder

`rsx-recorder` and its `ReplicationConsumer`: the records of a producer's log are appended to a file
for each day.  The consumer keeps the last number it was given in a file of its own, and asks for
the records after it; the archive buffers a thousand records.  -/

namespace Rsx.Wal

structure ProducerLog where
  records : List Framed
  numbered : records.map Framed.seq = List.range' 1 records.length

/-- A file of the archive.  One that retention has deleted stays in the list, for reference. -/
structure DayFile where
  date : Nat
  bytes : List UInt8
  onDisk : Bool := true
  deriving DecidableEq, Repr

structure ArchiveIo where
  failedAt : Option Nat := none
  synced : Bool := true

structure RecordIo where
  rotated : ArchiveIo := {}
  opened : Bool := true
  unlinked : DayFile → Bool := fun _ => true
  flushed : ArchiveIo := {}

/-- `RecorderState`; `file` is open on the file of `currentDate`. -/
structure RecorderState where
  currentDate : Nat
  retainDays : Nat
  buf : List UInt8 := []
  recordCount : Nat := 0
  lastSeq : Option Nat

/-- The files and the recorder that writes them.  `unsynced` counts the bytes of the open file that
no sync has covered. -/
structure Archive where
  files : List DayFile
  state : RecorderState
  unsynced : Nat := 0

def scanLastSeq : Nat → List UInt8 → Option Nat → Option Nat
  | 0, _, lastSeq => lastSeq
  | fuel + 1, rest, lastSeq =>
    match scanNext rest with
    | none => lastSeq
    | some (r, rest) => scanLastSeq fuel rest ((extractSeq r.payload).or lastSeq)

def readLastSeq (file : List UInt8) : Option Nat :=
  scanLastSeq (file.length + 1) file none

/-- `open` with `create` and `append`; the files are in the order of their dates. -/
def openDay (date : Nat) (files : List DayFile) : List DayFile :=
  if files.any fun file => file.onDisk && file.date = date then files
  else files.orderedInsert (fun f g => f.date ≤ g.date) ⟨date, [], true⟩

/-- `prune_archive`; an unlink that fails leaves the file. -/
def pruneArchive (today retainDays : Nat) (unlinked : DayFile → Bool) (files : List DayFile) :
    List DayFile :=
  files.map fun file =>
    if file.date + retainDays < today ∧ unlinked file then { file with onDisk := false } else file

namespace Archive

variable (a : Archive)

def append (bytes : List UInt8) : Archive :=
  { a with
    files := a.files.map fun file =>
      if file.onDisk ∧ file.date = a.state.currentDate then
        { file with bytes := file.bytes ++ bytes }
      else file
    unsynced := a.unsynced + bytes.length }

/-- `RecorderState::flush`; the result says whether it returned without an error. -/
def flush (io : ArchiveIo) : Archive × Bool :=
  if a.state.buf = [] then (a, true)
  else
    match io.failedAt with
    | some n => (a.append (a.state.buf.take n), false)
    | none =>
      let a := a.append a.state.buf
      if !io.synced then (a, false)
      else ({ a with state.buf := [], unsynced := 0 }, true)

def rotate (newDate : Nat) (io : RecordIo) : Archive × Bool :=
  let (a, ok) := a.flush io.rotated
  if !ok then (a, false)
  else if !io.opened then (a, false)
  else
    ({ a with
      files := pruneArchive newDate a.state.retainDays io.unlinked (openDay newDate a.files)
      state.currentDate := newDate
      unsynced := 0 }, true)

/-- The record behind the buffer, unless its number was already archived. -/
def addRecord (record : RawWalRecord) (io : RecordIo) : Archive :=
  let seq := extractSeq record.payload
  if seq.any fun seq => a.state.lastSeq.any fun lastSeq => decide (seq ≤ lastSeq) then a
  else
    let a := { a with
      state.lastSeq := seq.or a.state.lastSeq
      state.buf := a.state.buf ++ record.bytes
      state.recordCount := a.state.recordCount + 1 }
    if a.state.recordCount % 1000 = 0 then (a.flush io.flushed).1 else a

/-- `write_record`.  When the rotation fails the record is not taken. -/
def writeRecord (record : RawWalRecord) (today : Nat) (io : RecordIo) : Archive :=
  if today ≠ a.state.currentDate then
    let (a, ok) := a.rotate today io
    if !ok then a else a.addRecord record io
  else a.addRecord record io

end Archive

/-- The process: the recorder, and the consumer with the last number it was given. -/
structure RecorderNode where
  archive : Archive
  tip : Nat
  connected : Bool := false

structure ArchiveSite where
  files : List DayFile := []
  tipFile : Nat := 0
  node : Option RecorderNode := none

inductive ArchiveAction
  | start (today retainDays : Nat) (unlinked : DayFile → Bool)
  | connect
  | deliver (index today : Nat) (io : RecordIo)
  | persistTip
  | disconnect
  | shutdown (io : ArchiveIo)
  | crash (written lost : Nat)

namespace ArchiveSite

variable [Crc32c] (log : ProducerLog)

def dayFiles (s : ArchiveSite) : List DayFile :=
  s.node.elim s.files fun node => node.archive.files

def stopped (s : ArchiveSite) (files : List DayFile) : ArchiveSite :=
  { s with files := files, node := none }

/-- The open file after a crash in the middle of a write; bytes that were not synced may be lost. -/
def crashed (a : Archive) (written lost : Nat) : List DayFile :=
  let a := a.append (a.state.buf.take written)
  a.files.map fun file =>
    if file.onDisk ∧ file.date = a.state.currentDate then
      { file with bytes := file.bytes.take (file.bytes.length - min lost a.unsynced) }
    else file

/-- `main` and `follow_loop` of the recorder, `handle_stream` of the consumer.  The consumer asks
for the records after its tip and takes whichever of them comes; the tip is raised before the record
is written. -/
def step (s : ArchiveSite) : ArchiveAction → Option ArchiveSite
  | .start today retainDays unlinked =>
    match s.node with
    | some _ => none
    | none =>
      let files := openDay today s.files
      let bytes := ((files.find? fun file => file.onDisk && file.date = today).map
        DayFile.bytes).getD []
      some { s with node := some {
        archive := {
          files := pruneArchive today retainDays unlinked files
          state := {
            currentDate := today, retainDays := retainDays, lastSeq := readLastSeq bytes } }
        tip := s.tipFile } }
  | .connect => s.node.map fun node => { s with node := some { node with connected := true } }
  | .deliver index today io => do
      let node ← s.node
      if !node.connected || index < node.tip then none
      else
        let f ← log.records[index]?
        some { s with node := some { node with
          tip := max node.tip f.seq, archive := node.archive.writeRecord f.raw today io } }
  | .persistTip => s.node.map fun node => { s with tipFile := node.tip }
  | .disconnect => s.node.map fun node => { s with node := some { node with connected := false } }
  | .shutdown io => s.node.map fun node => s.stopped (node.archive.flush io).1.files
  | .crash written lost => s.node.map fun node => s.stopped (crashed node.archive written lost)

end ArchiveSite

end Rsx.Wal
