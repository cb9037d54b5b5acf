import Rsx.Wal.ExactlyOnce
import Rsx.Wal.Recorder

/-!
# What the archive holds

The tip is persisted whether or not the records it covers have left the buffer, a flush that fails
is repeated behind the bytes it has left, and a restart looks for the last number in the file of the
day only.  In runs in which none of this matters the files hold a prefix of the log that covers the
tip.  -/

namespace Rsx.Wal

open Function List ArchiveSite

namespace ArchiveIo

def Succeeds (io : ArchiveIo) : Prop :=
  io.failedAt = none ∧ io.synced = true

/-- The flush succeeds, or it fails before it has written anything. -/
def Harmless (io : ArchiveIo) : Prop :=
  io.Succeeds ∨ io.failedAt = some 0

instance (io : ArchiveIo) : Decidable io.Succeeds :=
  inferInstanceAs (Decidable (_ ∧ _))

instance (io : ArchiveIo) : Decidable io.Harmless :=
  inferInstanceAs (Decidable (_ ∨ _))

end ArchiveIo

/-- The condition on a step.  The clock does not go back; a start finds no record beyond the tip in
the file of an earlier day; the record that comes is the one after the tip (the server skips one
for a consumer that had them all when it connected); a change of day finds the flush and the new
file to succeed; a flush that fails has written nothing, and a crash does not hit one; and the tip
is persisted when the buffer is empty. -/
def ArchiveSite.Careful (s : ArchiveSite) : ArchiveAction → Prop
  | .start today _ _ => ∀ file ∈ s.files, file.date ≤ today ∧
      (file.date < today → (readLastSeq file.bytes).all (· ≤ s.tipFile) = true)
  | .deliver index today io => ∀ node ∈ s.node, index = node.tip ∧
      node.archive.state.currentDate ≤ today ∧
      (today ≠ node.archive.state.currentDate →
        (node.archive.state.buf = [] ∨ io.rotated.Succeeds) ∧ io.opened = true) ∧
      io.flushed.Harmless
  | .persistTip => ∀ node ∈ s.node, node.archive.state.buf = []
  | .shutdown io => ∀ node ∈ s.node, node.archive.state.buf = [] ∨ io.Harmless
  | .crash written _ => ∀ node ∈ s.node, node.archive.state.buf.take written = []
  | _ => True

instance (s : ArchiveSite) (action : ArchiveAction) : Decidable (s.Careful action) := by
  cases action <;> unfold Careful <;> infer_instance

/-! ## The log -/

namespace ProducerLog

variable {log : ProducerLog}

theorem seq_of_getElem? {i : Nat} {f : Framed} (h : log.records[i]? = some f) : f.seq = i + 1 := by
  obtain ⟨hi, rfl⟩ := List.getElem?_eq_some_iff.1 h
  have heq := congrArg (fun l => l[i]?) log.numbered
  simp only [List.getElem?_map, List.getElem?_eq_getElem hi, Option.map_some] at heq
  rw [List.getElem?_range' hi] at heq
  have := Option.some.inj heq
  omega

theorem seq_getLast {n : Nat} {init : List Framed} {f : Framed} (hle : n ≤ log.records.length)
    (h : log.records.take n = init ++ [f]) : f.seq = n := by
  have hlen := congrArg length h
  rw [length_take, length_append, length_singleton] at hlen
  have hget : log.records[init.length]? = some f := by
    rw [← getElem?_take_of_lt (show init.length < n by omega), h,
      getElem?_append_right le_rfl, Nat.sub_self]
    rfl
  rw [seq_of_getElem? hget]
  omega

theorem ascending (log : ProducerLog) : Ascending log.records := by
  have hrange : (log.records.map Framed.seq).Pairwise (· < ·) := by
    rw [log.numbered]
    exact pairwise_lt_range'
  exact pairwise_map.1 hrange

end ProducerLog

/-! ## Files in the order of their days -/

def Current (files : List DayFile) (date : Nat) : Prop :=
  ∃ earlier bytes, files = earlier ++ [⟨date, bytes, true⟩]

section Days

variable {files : List DayFile} {file : DayFile} {date : Nat}

theorem date_lt_of_dates {earlier : List DayFile}
    (h : ((earlier ++ [file]).map DayFile.date).Pairwise (· < ·)) {other : DayFile}
    (hother : other ∈ earlier) : other.date < file.date := by
  rw [map_append] at h
  exact (pairwise_append.1 h).2.2 _ (mem_map_of_mem hother) _ (mem_singleton_self _)

theorem dates_le_of_current (h : (files.map DayFile.date).Pairwise (· < ·))
    (hcurrent : Current files date) (hfile : file ∈ files) : file.date ≤ date := by
  obtain ⟨_, _, rfl⟩ := hcurrent
  rcases mem_append.1 hfile with hmem | hmem
  · exact (date_lt_of_dates h hmem).le
  · rw [mem_singleton.1 hmem]

theorem orderedInsert_last (files : List DayFile) (file : DayFile)
    (h : ∀ other ∈ files, other.date < file.date) :
    files.orderedInsert (fun f g => f.date ≤ g.date) file = files ++ [file] := by
  induction files with
  | nil => rfl
  | cons other files ih =>
    have hlt := h other mem_cons_self
    rw [orderedInsert_cons, if_neg (Nat.not_le.2 hlt),
      ih fun other' hother' => h other' (.tail other hother')]
    rfl

theorem openDay_new (hdates : ∀ file ∈ files, file.date < date) :
    openDay date files = files ++ [⟨date, [], true⟩] := by
  unfold openDay
  rw [if_neg, orderedInsert_last files _ hdates]
  rw [any_eq_true]
  rintro ⟨file, hfile, hsame⟩
  have := hdates file hfile
  simp only [Bool.and_eq_true, decide_eq_true_eq] at hsame
  omega

theorem find?_day (hdates : ∀ file ∈ files, file.date < date) (bytes : List UInt8) :
    (files ++ [(⟨date, bytes, true⟩ : DayFile)]).find?
        (fun file => file.onDisk && file.date = date) = some ⟨date, bytes, true⟩ := by
  have hnone : files.find? (fun file => file.onDisk && file.date = date) = none := by
    refine find?_eq_none.2 fun file hfile => ?_
    have := hdates file hfile
    simp only [Bool.and_eq_true, decide_eq_true_eq]
    omega
  rw [find?_append, hnone]
  simp

end Days

theorem Archive.append_nil (a : Archive) : a.append [] = a := by
  unfold Archive.append
  simp

section

variable [Crc32c]

theorem scanLastSeq_encode {fs : List Framed} {fuel : Nat} (hfuel : fs.length < fuel)
    (lastSeq : Option Nat) :
    scanLastSeq fuel (encode fs) lastSeq = (fs.getLast?.map Framed.seq).or lastSeq := by
  induction fs generalizing fuel lastSeq with
  | nil =>
    cases fuel with
    | zero | succ => rfl
  | cons f fs ih =>
    cases fuel with
    | zero => exact absurd hfuel (Nat.not_lt_zero _)
    | succ =>
      have hseq : extractSeq f.raw.payload = some f.seq := f.extractSeq_payload
      rw [encode_cons, scanLastSeq, scanNext_wire]
      dsimp only
      rw [ih (Nat.lt_of_succ_lt_succ hfuel), hseq, getLast?_cons]
      cases fs.getLast? <;> rfl

theorem readLastSeq_encode (fs : List Framed) :
    readLastSeq (encode fs) = fs.getLast?.map Framed.seq := by
  unfold readLastSeq
  rw [scanLastSeq_encode (Nat.lt_succ_of_le (length_le_encode fs)), Option.or_none]

/-- The files hold the first `n` records of the log, `parts` day by day. -/
structure Archived (log : ProducerLog) (files : List DayFile) (parts : List (List Framed))
    (n : Nat) : Prop where
  bytes : files.map DayFile.bytes = parts.map encode
  flatten : parts.flatten = log.records.take n
  le : n ≤ log.records.length
  dates : (files.map DayFile.date).Pairwise (· < ·)

section Files

variable {log : ProducerLog} {files : List DayFile} {parts : List (List Framed)} {n date : Nat}

theorem Archived.concat {earlier : List DayFile} {file : DayFile}
    (h : Archived log (earlier ++ [file]) parts n) :
    ∃ before last, parts = before ++ [last] ∧ earlier.map DayFile.bytes = before.map encode ∧
      file.bytes = encode last := by
  have hbytes := h.bytes
  rcases eq_nil_or_concat parts with rfl | ⟨before, last, rfl⟩
  · simp at hbytes
  · rw [concat_eq_append, map_append, map_append] at hbytes
    obtain ⟨hbefore, hlast⟩ := append_inj' hbytes rfl
    exact ⟨before, last, concat_eq_append, hbefore, (cons.inj hlast).1⟩

theorem Archived.append (h : Archived log files parts n) (hcurrent : Current files date) {m : Nat}
    (hle : n + m ≤ log.records.length) {a : Archive} (ha : a.files = files)
    (hdate : a.state.currentDate = date) :
    ∃ parts', Archived log (a.append (encode ((log.records.drop n).take m))).files parts' (n + m) ∧
      Current (a.append (encode ((log.records.drop n).take m))).files date := by
  obtain ⟨earlier, bytes, rfl⟩ := hcurrent
  generalize hchunk : (log.records.drop n).take m = chunk
  have hfiles : (a.append (encode chunk)).files = earlier ++
      [⟨date, bytes ++ encode chunk, true⟩] := by
    unfold Archive.append
    rw [ha, hdate, map_append]
    refine congrArg₂ (· ++ ·) ?_ ?_
    · refine (map_congr_left fun file hfile => ?_).trans (map_id _)
      have hlt := date_lt_of_dates h.dates hfile
      exact if_neg fun hsame => absurd hsame.2 (Nat.ne_of_lt hlt)
    · rw [map_singleton, if_pos ⟨rfl, rfl⟩]
  obtain ⟨before, last, rfl, hbefore, hlast⟩ := h.concat
  have hlast : bytes = encode last := hlast
  rw [hfiles]
  refine ⟨before ++ [last ++ chunk], ⟨?_, ?_, hle, ?_⟩, ⟨earlier, _, rfl⟩⟩
  · rw [map_append, map_append, map_singleton, map_singleton, hbefore, encode_append, hlast]
  · have hflatten := h.flatten
    rw [flatten_append, flatten_singleton] at hflatten ⊢
    rw [← append_assoc, hflatten, ← hchunk, take_add]
  · have hdates := h.dates
    rw [map_append] at hdates ⊢
    exact hdates

theorem Archived.openDay (h : Archived log files parts n)
    (hdates : ∀ file ∈ files, file.date < date) :
    Archived log (openDay date files) (parts ++ [[]]) n ∧ Current (openDay date files) date := by
  rw [openDay_new hdates]
  refine ⟨⟨?_, ?_, h.le, ?_⟩, files, [], rfl⟩
  · rw [map_append, map_append, h.bytes]
    rfl
  · rw [flatten_append, h.flatten]
    exact append_nil _
  · rw [map_append]
    refine pairwise_append.2 ⟨h.dates, pairwise_singleton _ _, fun day hday other hother => ?_⟩
    obtain ⟨file, hfile, rfl⟩ := mem_map.1 hday
    rw [mem_singleton.1 hother]
    exact hdates file hfile

theorem Archived.prune (h : Archived log files parts n) (hcurrent : Current files date)
    (retainDays : Nat) (unlinked : DayFile → Bool) :
    Archived log (pruneArchive date retainDays unlinked files) parts n ∧
      Current (pruneArchive date retainDays unlinked files) date := by
  have hsame : ∀ {β : Type} (g : DayFile → β), (∀ file, g { file with onDisk := false } = g file) →
      (pruneArchive date retainDays unlinked files).map g = files.map g := by
    intro _ g hg
    unfold pruneArchive
    rw [map_map]
    refine map_congr_left fun file _ => ?_
    dsimp only [comp_apply]
    split_ifs
    · exact hg file
    · rfl
  refine ⟨⟨(hsame _ fun _ => rfl).trans h.bytes, h.flatten, h.le, ?_⟩, ?_⟩
  · rw [hsame _ fun _ => rfl]
    exact h.dates
  obtain ⟨earlier, bytes, rfl⟩ := hcurrent
  refine ⟨pruneArchive date retainDays unlinked earlier, bytes, ?_⟩
  unfold pruneArchive
  rw [map_append, map_singleton, if_neg]
  intro hold
  have hlt : date + retainDays < date := hold.1
  omega

end Files

/-! ## The running process -/

/-- The buffer continues the files by `m` records. -/
structure Buffered (log : ProducerLog) (a : Archive) (parts : List (List Framed)) (n m : Nat) :
    Prop where
  archived : Archived log a.files parts n
  current : Current a.files a.state.currentDate
  within : n + m ≤ log.records.length
  buf : a.state.buf = encode ((log.records.drop n).take m)
  unsynced : a.unsynced = 0

namespace Buffered

variable {log : ProducerLog} {a : Archive} {parts : List (List Framed)} {n m : Nat}
  {io : RecordIo} {today i : Nat} {f : Framed}

variable (h : Buffered log a parts n m)
include h

theorem eq_zero_of_buf (hbuf : a.state.buf = []) : m = 0 := by
  have hnil := encode_eq_nil.1 (h.buf.symm.trans hbuf)
  have hlen := congrArg length hnil
  have hwithin := h.within
  rw [length_take, length_drop, length_nil] at hlen
  omega

theorem flush {io : ArchiveIo} (hio : a.state.buf = [] ∨ io.Succeeds) :
    ∃ parts', (a.flush io).2 = true ∧ Buffered log (a.flush io).1 parts' (n + m) 0 ∧
      (a.flush io).1.state = { a.state with buf := [] } := by
  unfold Archive.flush
  by_cases hbuf : a.state.buf = []
  · obtain rfl := h.eq_zero_of_buf hbuf
    rw [if_pos hbuf]
    refine ⟨parts, rfl, h, ?_⟩
    rw [← hbuf]
  · obtain ⟨hwritten, hsynced⟩ := hio.resolve_left hbuf
    obtain ⟨parts', harchived, hcurrent⟩ := h.archived.append h.current h.within rfl rfl
    rw [← h.buf] at harchived hcurrent
    rw [if_neg hbuf, hwritten, hsynced]
    exact ⟨parts', rfl, ⟨harchived, hcurrent, h.within, by simp, rfl⟩, rfl⟩

theorem flush_harmless {io : ArchiveIo} (hio : a.state.buf = [] ∨ io.Harmless) :
    ∃ parts' n' m', Buffered log (a.flush io).1 parts' n' m' ∧ n ≤ n' ∧ n' + m' = n + m ∧
      (a.flush io).1.state.lastSeq = a.state.lastSeq := by
  by_cases hok : a.state.buf = [] ∨ io.Succeeds
  · obtain ⟨parts', -, hflushed, hstate⟩ := h.flush hok
    refine ⟨parts', n + m, 0, hflushed, Nat.le_add_right n m, rfl, ?_⟩
    rw [hstate]
  · rw [not_or] at hok
    have hfailed : io.failedAt = some 0 := (hio.resolve_left hok.1).resolve_left hok.2
    unfold Archive.flush
    rw [if_neg hok.1, hfailed]
    dsimp only
    rw [take_zero, a.append_nil]
    exact ⟨parts, n, m, h, le_rfl, rfl, rfl⟩

theorem rotate (hday : a.state.currentDate < today) (hio : a.state.buf = [] ∨ io.rotated.Succeeds)
    (hopened : io.opened = true) :
    ∃ parts', (a.rotate today io).2 = true ∧ Buffered log (a.rotate today io).1 parts' (n + m) 0 ∧
      (a.rotate today io).1.state.lastSeq = a.state.lastSeq := by
  obtain ⟨parts', hok, hflushed, hstate⟩ := h.flush hio
  have hdates : ∀ file ∈ (a.flush io.rotated).1.files, file.date < today := by
    intro file hfile
    have hle := dates_le_of_current hflushed.archived.dates hflushed.current hfile
    rw [hstate] at hle
    exact hle.trans_lt hday
  obtain ⟨hnew, hcurrent⟩ := hflushed.archived.openDay hdates
  obtain ⟨hpruned, hcurrent'⟩ := hnew.prune hcurrent (a.flush io.rotated).1.state.retainDays
    io.unlinked
  unfold Archive.rotate
  dsimp only
  rw [hok, hopened]
  refine ⟨parts' ++ [[]], rfl, ⟨hpruned, hcurrent', hflushed.within, ?_, rfl⟩, ?_⟩
  · exact hflushed.buf
  · show (a.flush io.rotated).1.state.lastSeq = _
    rw [hstate]

variable (hf : log.records[i]? = some f) (hi : i ≤ n + m)
  (hlast : a.state.lastSeq = none ∧ i = n + m ∨ a.state.lastSeq = some (n + m))
  (hio : io.flushed.Harmless)
include hf hi hlast hio

theorem addRecord :
    ∃ parts' n' m', Buffered log (a.addRecord f.raw io) parts' n' m' ∧ n ≤ n' ∧
      n' + m' = max (n + m) (i + 1) ∧
      (a.addRecord f.raw io).state.lastSeq = some (n' + m') := by
  have hseq : extractSeq f.raw.payload = some f.seq := f.extractSeq_payload
  have hnumber : f.seq = i + 1 := log.seq_of_getElem? hf
  unfold Archive.addRecord
  dsimp only
  rw [hseq]
  rcases Nat.lt_or_eq_of_le hi with hlt | heq
  · -- The number is in the archive or in the buffer.
    have hsome : a.state.lastSeq = some (n + m) := hlast.resolve_left fun hnone => by omega
    rw [if_pos (by simp [hsome]; omega)]
    exact ⟨parts, n, m, h, le_rfl, by omega, hsome⟩
  · have hnew : ¬ ((some f.seq).any fun seq => a.state.lastSeq.any fun lastSeq =>
        decide (seq ≤ lastSeq)) = true := by
      rcases hlast with ⟨hnone, -⟩ | hsome
      · simp [hnone]
      · simp [hsome]
        omega
    have hadded : Buffered log { a with
        state.lastSeq := (some f.seq).or a.state.lastSeq
        state.buf := a.state.buf ++ f.raw.bytes
        state.recordCount := a.state.recordCount + 1 } parts n (m + 1) := by
      have hbound : i < log.records.length := (List.getElem?_eq_some_iff.1 hf).1
      refine ⟨h.archived, h.current, by omega, ?_, h.unsynced⟩
      show a.state.buf ++ f.wire = _
      have hget : (log.records.drop n)[m]? = some f := by
        rw [List.getElem?_drop, ← heq]
        exact hf
      rw [h.buf, take_add_one, hget]
      simp
    split_ifs
    · obtain ⟨parts', n', m', hflushed, hle, hsum, hseq'⟩ := hadded.flush_harmless (.inr hio)
      refine ⟨parts', n', m', hflushed, hle, by omega, ?_⟩
      rw [hseq']
      exact congrArg some (by omega)
    · refine ⟨parts, n, m + 1, hadded, le_rfl, by omega, ?_⟩
      exact congrArg some (by omega)

theorem writeRecord (hday : a.state.currentDate ≤ today)
    (hrotated : today ≠ a.state.currentDate →
      (a.state.buf = [] ∨ io.rotated.Succeeds) ∧ io.opened = true) :
    ∃ parts' n' m', Buffered log (a.writeRecord f.raw today io) parts' n' m' ∧ n ≤ n' ∧
      n' + m' = max (n + m) (i + 1) ∧
      (a.writeRecord f.raw today io).state.lastSeq = some (n' + m') := by
  unfold Archive.writeRecord
  split_ifs with hchanged
  · obtain ⟨hflush, hopened⟩ := hrotated hchanged
    obtain ⟨_, hok, hnew, hseq⟩ := h.rotate (lt_of_le_of_ne hday (Ne.symm hchanged)) hflush hopened
    dsimp only
    rw [hok]
    rw [← hseq] at hlast
    obtain ⟨parts', n', m', hadded, hle, hsum, hseq'⟩ := hnew.addRecord hf hi hlast hio
    exact ⟨parts', n', m', hadded, (Nat.le_add_right n m).trans hle, hsum, hseq'⟩
  · exact h.addRecord hf hi hlast hio

end Buffered

/-- The consumer has been given no more than what is archived or buffered; what it is given again is
known to be. -/
structure Recording (log : ProducerLog) (node : RecorderNode) (parts : List (List Framed))
    (n m : Nat) : Prop where
  buffered : Buffered log node.archive parts n m
  tip : node.tip ≤ n + m
  lastSeq : node.archive.state.lastSeq = none ∧ node.tip = n + m ∨
    node.archive.state.lastSeq = some (n + m)

structure SiteHolds (log : ProducerLog) (s : ArchiveSite) (parts : List (List Framed)) (n : Nat) :
    Prop where
  archived : Archived log s.dayFiles parts n
  last : s.dayFiles = [] ∨ ∃ date, Current s.dayFiles date
  tip : s.tipFile ≤ n
  node : ∀ node ∈ s.node, ∃ m, Recording log node parts n m

theorem Archived.le_tip {log : ProducerLog} {files : List DayFile} {parts : List (List Framed)}
    {n tip : Nat} (h : Archived log files parts n)
    (htip : ∀ part ∈ parts, ∀ hne : part ≠ [], (part.getLast hne).seq ≤ tip) : n ≤ tip := by
  rcases eq_nil_or_concat (log.records.take n) with hnil | ⟨init, f, hlast⟩
  · have hlen := congrArg length hnil
    have hle := h.le
    rw [length_take, length_nil] at hlen
    omega
  · rw [concat_eq_append] at hlast
    have hseq := ProducerLog.seq_getLast h.le hlast
    obtain ⟨part, hpart, hf⟩ : ∃ part ∈ parts, f ∈ part := by
      have hmem : f ∈ parts.flatten := by
        rw [h.flatten, hlast]
        exact mem_append_right _ (mem_singleton_self f)
      exact mem_flatten.1 hmem
    have hne : part ≠ [] := ne_nil_of_mem hf
    have hascending : Ascending part := by
      have hsub : part.Sublist log.records := by
        refine (sublist_flatten_of_mem hpart).trans ?_
        rw [h.flatten]
        exact take_sublist _ _
      exact log.ascending.sublist hsub
    have hcovers := (hascending.covers hf).2
    rw [lastSeq_segmentOf hne] at hcovers
    exact hseq ▸ hcovers.trans (htip part hpart hne)

namespace SiteHolds

variable {log : ProducerLog} {s s' : ArchiveSite} {parts : List (List Framed)} {n : Nat}
  {file : DayFile}

theorem start (log : ProducerLog) : SiteHolds log {} [] 0 where
  archived := ⟨rfl, rfl, Nat.zero_le _, .nil⟩
  last := .inl rfl
  tip := le_rfl
  node := fun node hnode => absurd hnode (by simp)

theorem covered {today : Nat} {files : List DayFile}
    (hcareful : ∀ file ∈ s.files, file.date ≤ today ∧
      (file.date < today → (readLastSeq file.bytes).all (· ≤ s.tipFile) = true))
    (hearlier : ∀ file ∈ files, file ∈ s.files ∧ file.date < today)
    (hbytes : files.map DayFile.bytes = parts.map encode) :
    ∀ part ∈ parts, ∀ hne : part ≠ [], (part.getLast hne).seq ≤ s.tipFile := by
  intro part hpart hne
  have hmem : encode part ∈ files.map DayFile.bytes := hbytes ▸ mem_map_of_mem hpart
  obtain ⟨file, hfile, heq⟩ := mem_map.1 hmem
  obtain ⟨hin, hdate⟩ := hearlier file hfile
  have hall := (hcareful file hin).2 hdate
  rw [heq, readLastSeq_encode, getLast?_eq_some_getLast hne] at hall
  simpa using hall

/-- **A start.**  The file of the day tells the last number, or the tip does. -/
theorem open_step (h : SiteHolds log s parts n) (hnode : s.node = none) {today retainDays : Nat}
    {unlinked : DayFile → Bool} (hcareful : s.Careful (.start today retainDays unlinked))
    (hstep : s.step log (.start today retainDays unlinked) = some s') :
    ∃ parts' n', SiteHolds log s' parts' n' := by
  have hfiles : s.dayFiles = s.files := by
    unfold dayFiles
    rw [hnode]
    rfl
  have harchived := h.archived
  have hlast := h.last
  rw [hfiles] at harchived hlast
  have htip := h.tip
  -- The files after `open`, with the last number in that of the day.
  obtain ⟨parts', hopen, hcurrent, hread⟩ : ∃ parts',
      Archived log (openDay today s.files) parts' n ∧
      Current (openDay today s.files) today ∧
      let lastSeq := readLastSeq ((((openDay today s.files).find? fun file =>
        file.onDisk && file.date = today).map DayFile.bytes).getD [])
      lastSeq = none ∧ s.tipFile = n ∨ lastSeq = some n := by
    by_cases hnew : ∀ file ∈ s.files, file.date < today
    · obtain ⟨hopen, hcurrent⟩ := harchived.openDay hnew
      refine ⟨_, hopen, hcurrent, .inl ⟨?_, le_antisymm htip (harchived.le_tip ?_)⟩⟩
      · rw [openDay_new hnew, find?_day hnew]
        rfl
      · exact covered hcareful (fun file hfile => ⟨hfile, hnew file hfile⟩) harchived.bytes
    · push Not at hnew
      obtain ⟨_, hfile, _⟩ := hnew
      obtain ⟨date, earlier, bytes, hshape⟩ := hlast.resolve_left (ne_nil_of_mem hfile)
      have hearlier : ∀ other ∈ earlier, other.date < date := by
        intro other hother
        have hdates := harchived.dates
        rw [hshape] at hdates
        exact date_lt_of_dates hdates hother
      obtain rfl : date = today := by
        have hle := (hcareful _ (hshape ▸ mem_append_right _ (mem_singleton_self _))).1
        have hdates := harchived.dates
        have := dates_le_of_current hdates ⟨earlier, bytes, hshape⟩ hfile
        dsimp only at hle
        omega
      have hsame : openDay date s.files = s.files := by
        refine if_pos (any_eq_true.2 ⟨⟨date, bytes, true⟩, ?_, by simp⟩)
        rw [hshape]
        exact mem_append_right _ (mem_singleton_self _)
      obtain ⟨before, last, rfl, hbefore, hbytes⟩ := (hshape ▸ harchived).concat
      have hbytes : bytes = encode last := hbytes
      rw [hsame]
      refine ⟨before ++ [last], harchived, ⟨earlier, bytes, hshape⟩, ?_⟩
      rw [hshape, find?_day hearlier, Option.map_some, Option.getD_some, hbytes,
        readLastSeq_encode]
      rcases eq_nil_or_concat last with rfl | ⟨init, f, rfl⟩
      · refine .inl ⟨rfl, le_antisymm htip (harchived.le_tip fun part hpart hne => ?_)⟩
        rcases mem_append.1 hpart with hmem | hmem
        · refine covered hcareful (fun file hfile => ⟨?_, hearlier file hfile⟩) hbefore part
            hmem hne
          rw [hshape]
          exact mem_append_left _ hfile
        · exact absurd (mem_singleton.1 hmem) hne
      · refine .inr ?_
        have hflatten := harchived.flatten
        rw [concat_eq_append] at hflatten ⊢
        rw [flatten_append, flatten_singleton, ← append_assoc] at hflatten
        rw [getLast?_append_of_ne_nil _ (cons_ne_nil f []), getLast?_singleton,
          Option.map_some, ProducerLog.seq_getLast harchived.le hflatten.symm]
  obtain ⟨hpruned, hcurrent'⟩ := hopen.prune hcurrent retainDays unlinked
  rw [step, hnode] at hstep
  cases hstep
  refine ⟨parts', n, hpruned, .inr ⟨today, hcurrent'⟩, htip, fun node hnode' => ⟨0, ?_⟩⟩
  obtain rfl := Option.some.inj hnode'
  exact ⟨⟨hpruned, hcurrent', hpruned.le, rfl, rfl⟩, htip, hread⟩

theorem of_recording {node : RecorderNode} {m n' : Nat} {parts' : List (List Framed)}
    (htip : s.tipFile ≤ n') (h : Recording log node parts' n' m) :
    SiteHolds log { s with node := some node } parts' n' := by
  refine ⟨h.buffered.archived, .inr ⟨_, h.buffered.current⟩, htip, fun node' hnode' => ⟨m, ?_⟩⟩
  obtain rfl := Option.some.inj hnode'
  exact h

theorem step (h : SiteHolds log s parts n) {action : ArchiveAction} (hcareful : s.Careful action)
    (hstep : s.step log action = some s') : ∃ parts' n', SiteHolds log s' parts' n' := by
  cases action with
  | start =>
    cases hnode : s.node with
    | none => exact h.open_step hnode hcareful hstep
    | some =>
      rw [ArchiveSite.step, hnode] at hstep
      cases hstep
  | connect | disconnect =>
    obtain ⟨node, hnode, rfl⟩ := Option.map_eq_some_iff.1 hstep
    obtain ⟨m, hrecording⟩ := h.node node hnode
    exact ⟨parts, n, of_recording h.tip ⟨hrecording.buffered, hrecording.tip, hrecording.lastSeq⟩⟩
  | deliver =>
    obtain ⟨node, hnode, hstep⟩ := Option.bind_eq_some_iff.1 hstep
    split_ifs at hstep
    obtain ⟨f, hf, hstep⟩ := Option.bind_eq_some_iff.1 hstep
    cases hstep
    obtain ⟨m, hrecording⟩ := h.node node hnode
    obtain ⟨rfl, hday, hrotated, hflushed⟩ := hcareful node hnode
    obtain ⟨parts', n', m', hbuffered, hle, _, hlastSeq⟩ := hrecording.buffered.writeRecord hf
      hrecording.tip hrecording.lastSeq hflushed hday hrotated
    have hseq : f.seq = node.tip + 1 := log.seq_of_getElem? hf
    refine ⟨parts', n', of_recording (h.tip.trans hle) ⟨hbuffered, ?_, .inr hlastSeq⟩⟩
    show max node.tip f.seq ≤ n' + m'
    omega
  | persistTip =>
    obtain ⟨node, hnode, rfl⟩ := Option.map_eq_some_iff.1 hstep
    obtain ⟨m, hrecording⟩ := h.node node hnode
    obtain rfl := hrecording.buffered.eq_zero_of_buf (hcareful node hnode)
    exact ⟨parts, n, h.archived, h.last, hrecording.tip, h.node⟩
  | shutdown io =>
    obtain ⟨node, hnode, rfl⟩ := Option.map_eq_some_iff.1 hstep
    obtain ⟨m, hrecording⟩ := h.node node hnode
    obtain ⟨parts', n', _, hbuffered, hle, -⟩ :=
      hrecording.buffered.flush_harmless (hcareful node hnode)
    exact ⟨parts', n', hbuffered.archived, .inr ⟨_, hbuffered.current⟩, h.tip.trans hle,
      fun _ hnone => absurd hnone (by simp [ArchiveSite.stopped])⟩
  | crash written lost =>
    obtain ⟨node, hnode, rfl⟩ := Option.map_eq_some_iff.1 hstep
    obtain ⟨_, hrecording⟩ := h.node node hnode
    have hfiles : ArchiveSite.crashed node.archive written lost = node.archive.files := by
      unfold ArchiveSite.crashed
      rw [hcareful node hnode, node.archive.append_nil]
      dsimp only
      rw [hrecording.buffered.unsynced]
      simp
    refine ⟨parts, n, ?_, .inr ⟨node.archive.state.currentDate, ?_⟩, h.tip,
      fun _ hnone => absurd hnone (by simp [ArchiveSite.stopped])⟩
    · rw [hfiles]
      exact hrecording.buffered.archived
    · rw [hfiles]
      exact hrecording.buffered.current

end SiteHolds

/-- **The archive.**  In every run whose steps meet the condition, the files of the days, in order,
hold the first records of the log, each once and whole, up to the recorded tip or beyond.  A file
that retention has deleted counts with what it held. -/
theorem archive_once (log : ProducerLog) {actions : List ArchiveAction} {s : ArchiveSite}
    (hcareful : Along (ArchiveSite.step log) ArchiveSite.Careful {} actions)
    (hrun : run (ArchiveSite.step log) {} actions = some s) :
    ∃ (parts : List (List Framed)) (n : Nat), s.tipFile ≤ n ∧ n ≤ log.records.length ∧
      s.dayFiles.map DayFile.bytes = parts.map encode ∧ parts.flatten = log.records.take n ∧
      (s.dayFiles.map DayFile.date).Pairwise (· < ·) := by
  obtain ⟨parts, n, h⟩ := run_invariant (I := fun s => ∃ parts n, SiteHolds log s parts n)
    (fun ⟨_, _, h⟩ hok hstep => h.step hok hstep) ⟨[], 0, SiteHolds.start log⟩ hcareful hrun
  exact ⟨parts, n, h.tip, h.archived.le, h.archived.bytes, h.archived.flatten, h.archived.dates⟩

end

open ByteCount

def threeRecords : ProducerLog where
  records := [⟨.bare 1, 1, by decide⟩, ⟨.bare 2, 2, by decide⟩, ⟨.bare 3, 3, by decide⟩]
  numbered := rfl

/-- A restart that is sent the first record again, and a change of day. -/
def twoDays : List ArchiveAction :=
  [.start 0 3 fun _ => true, .connect, .deliver 0 0 {}, .shutdown {}, .start 0 3 fun _ => true,
    .connect, .deliver 0 0 {}, .persistTip, .deliver 1 1 {}, .shutdown {}]

theorem archive_once_twoDays : ∃ (s : ArchiveSite) (parts : List (List Framed)) (n : Nat),
      run (ArchiveSite.step threeRecords) {} twoDays = some s ∧ 1 ≤ n ∧
      s.dayFiles.map DayFile.bytes = parts.map encode ∧
      parts.flatten = threeRecords.records.take n := by
  have hcareful : Along (ArchiveSite.step threeRecords) ArchiveSite.Careful {} twoDays := by
    decide +kernel
  obtain ⟨s, hs, htip⟩ : ∃ s, run (ArchiveSite.step threeRecords) {} twoDays = some s ∧
      s.tipFile = 1 := by decide +kernel
  obtain ⟨parts, n, hle, -, hbytes, hflatten, -⟩ := archive_once threeRecords hcareful hs
  exact ⟨s, parts, n, hs, htip ▸ hle, hbytes, hflatten⟩

/-- The record is in the buffer when the tip is persisted.  The crash loses it, and the recorder
that is started next asks for the second record.  And a consumer that connects again when it has the
only record is not sent the second one, as the server goes on behind the number it asks for. -/
theorem archive_misses_record :
    (run (ArchiveSite.step threeRecords) {} [.start 0 3 fun _ => true, .connect, .deliver 0 0 {},
        .persistTip, .crash 0 0, .start 0 3 fun _ => true, .connect, .deliver 1 0 {},
        .deliver 2 0 {}, .shutdown {}]).map (fun s => (s.tipFile, s.dayFiles.map DayFile.bytes)) =
      some (1, [encode (threeRecords.records.drop 1)]) ∧
    (run (ArchiveSite.step threeRecords) {} [.start 0 3 fun _ => true, .connect, .deliver 0 0 {},
        .disconnect, .connect, .deliver 2 0 {}, .persistTip, .shutdown {}]).map
        (fun s => (s.tipFile, s.dayFiles.map DayFile.bytes)) =
      some (3, [encode (threeRecords.records.eraseIdx 1)]) := by
  decide +kernel

end Rsx.Wal
