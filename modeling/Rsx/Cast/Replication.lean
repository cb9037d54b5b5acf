import Rsx.Cast.Wal
import Rsx.Lib.Run

/-!
# The replication stream

`handle_client` of `replication_server.rs`.  The server reads the log from the number that the
client asks for to its end, and then polls for more.  Meanwhile the writer appends and rotates,
between any two reads.  -/

namespace Rsx.Cast

open List Option WalDir

variable {R : Type}
  {n k : Nat}

/-- What `handle_client` is about to do: list the files, open the first one, or read.  It does so
first to catch up and then, `live`, in every poll. -/
inductive Phase
  | listing (live : Bool)
  | opening (live : Bool) (files : List WalFileInfo)
  | reading (live : Bool) (reader : WalReader)
  | closed

/-- A connection that has been agreed to, with the records that it was sent. -/
structure Server (R : Type) where
  fromSeq : Nat
  lastSeq : Nat
  sent : List (Nat × R) := []
  phase : Phase := .listing false

namespace Server

variable (server : Server R)

def targetSeq (live : Bool) : Nat :=
  if live then server.lastSeq + 1 else server.fromSeq

def interrupted (live : Bool) : Server R :=
  { server with phase := if live then .listing true else .closed }

/-- One step of `handle_client`.  The sleep between two polls is any number of steps of the
writer. -/
def serve (d : WalDir R) : Option (Server R) :=
  match server.phase with
  | .listing live => some { server with phase := .opening live d.listWalFiles }
  | .opening live files =>
    match WalReader.openFromSeq d files (server.targetSeq live) with
    | some reader => some { server with phase := .reading live reader }
    | none => some (server.interrupted live)
  | .reading live reader =>
    match reader.next d with
    | .record entry reader => some
        { server with
          sent := server.sent ++ [entry]
          lastSeq := entry.1
          phase := .reading live reader }
    | .skipped reader => some { server with phase := .reading live reader }
    | .advanced reader => some { server with phase := .reading live reader }
    | .eof => some { server with phase := .listing true }
    | .notFound => some (server.interrupted live)
  | .closed => none

end Server

def WalDir.oldestSeq (d : WalDir R) : Option Nat :=
  (d.segments.map Segment.firstSeq ++ (d.active.getD []).map Prod.fst).min?

def WalDir.canServe (d : WalDir R) (fromSeq : Nat) : Bool :=
  match d.oldestSeq with
  | some oldest => fromSeq = 0 ∨ oldest ≤ fromSeq
  | none => fromSeq = 0

structure Replication (R : Type) where
  dir : WalDir R := {}
  nextSeq : Nat := 1
  server : Option (Server R) := none

namespace Replication

/-- A flush is a number of `append`s; a rotation is a `rename` and a `create`. -/
inductive Action (R : Type)
  | append (payload : R)
  | rename
  | create
  | connect (fromSeq : Nat)
  | serve

def step (s : Replication R) : Action R → Option (Replication R)
  | .append payload => (s.dir.append (s.nextSeq, payload)).map fun dir =>
    { s with dir := dir, nextSeq := s.nextSeq + 1 }
  | .rename => s.dir.rename.map fun dir => { s with dir := dir }
  | .create => s.dir.create.map fun dir => { s with dir := dir }
  | .connect fromSeq =>
    if s.server.isSome then none
    else if s.dir.canServe fromSeq then
      some { s with server := some { fromSeq := fromSeq, lastSeq := fromSeq } }
    else some s
  | .serve => (s.server.bind fun server => server.serve s.dir).map fun server =>
    { s with server := some server }

end Replication

/-- The name of the active file has been listed and is still to be opened. -/
def Phase.awaitsActive : Phase → Bool
  | .opening _ files => files.any fun f => f.path = .active
  | .reading _ reader => (reader.files.drop (reader.fileIdx + 1)).any fun f => f.path = .active
  | _ => false

/-- The client asks for a record that is there, and the active file is not renamed between the
moment its name is listed and the moment it is opened. -/
def Replication.Undisturbed (s : Replication R) : Replication.Action R → Prop
  | .connect fromSeq => fromSeq < s.nextSeq
  | .rename => ∀ server ∈ s.server, server.phase.awaitsActive = false
  | _ => True

instance (s : Replication R) : ∀ a, Decidable (s.Undisturbed a)
  | .append _ => .isTrue trivial
  | .rename => inferInstanceAs (Decidable (∀ server ∈ s.server, _))
  | .create => .isTrue trivial
  | .connect _ => inferInstanceAs (Decidable (_ < _))
  | .serve => .isTrue trivial

/-! ## What the writer does to a directory -/

/-- A directory that has grown: the files it had are there, in their places. -/
structure Grows (d d' : WalDir R) : Prop where
  segments : d.segments <+: d'.segments
  files : d.files.length ≤ d'.files.length
  start : ∀ i < d.files.length, d'.start i = d.start i
  fileLength : ∀ i, d.fileLength i ≤ d'.fileLength i
  records : d.records <+: d'.records

variable {d d' : WalDir R} {entry : Nat × R} {m pos : Nat} {a : Bool} {files : List WalFileInfo}
  {r : WalReader}

theorem records_active (d : WalDir R) (more : List (Nat × R)) :
    ({ d with active := some (d.active.getD [] ++ more) } : WalDir R).records =
      d.records ++ more := by
  unfold records files
  cases d.active <;> simp

theorem grows_active (hd : d.Numbered) (more : List (Nat × R))
    (hd' : d' = { d with active := some (d.active.getD [] ++ more) })
    (hseq : ∀ p e, more[p]? = some e → e.1 = d.records.length + p + 1) :
    Grows d d' ∧ d'.Numbered := by
  have hlength : d.segments.length ≤ d.files.length ∧ d.files.length ≤ d.segments.length + 1 := by
    unfold files
    cases d.active <;> simp
  have hrecords := records_active d more
  rw [← hd'] at hrecords
  have hsegments : d'.segments = d.segments := by rw [hd']
  have hfiles : d'.files = d.segments.map Segment.records ++ [d.active.getD [] ++ more] := by
    rw [hd']
    rfl
  have hstart : ∀ i < d.files.length, d'.start i = d.start i := by
    intro i hi
    have hle : i ≤ (d.segments.map Segment.records).length := by
      rw [length_map]
      omega
    rw [start, start, hfiles, files, take_append_of_le_length hle, take_append_of_le_length hle]
  refine ⟨⟨hsegments ▸ prefix_rfl, ?_, hstart, fun i => ?_, ?_⟩, ⟨?_, fun i s hs => ?_, ?_⟩⟩
  · rw [hfiles, length_append, length_map]
    exact hlength.2
  · rw [fileLength, fileLength, hfiles, files]
    rcases Nat.lt_or_ge i (d.segments.map Segment.records).length with hlt | hge
    · rw [getElem?_append_left hlt, getElem?_append_left hlt]
    · rw [getElem?_append_right hge, getElem?_append_right hge]
      cases d.active with
      | none => exact Nat.zero_le _
      | some => cases i - (d.segments.map Segment.records).length <;> simp
  · rw [hrecords]
    exact prefix_append _ _
  · intro p e he
    rw [hrecords] at he
    rcases Nat.lt_or_ge p d.records.length with hlt | hge
    · rw [getElem?_append_left hlt] at he
      exact hd.seq p e he
    · rw [getElem?_append_right hge] at he
      rw [hseq _ _ he]
      omega
  · rw [hsegments] at hs
    rw [hstart i ((List.getElem?_eq_some_iff.1 hs).1.trans_le hlength.1)]
    exact hd.named i s hs
  · simp [hfiles]

theorem grows_rename (hd : d.Numbered) (hrun : d.rename = some d') :
    Grows d d' ∧ d'.Numbered ∧ d'.records = d.records := by
  unfold WalDir.rename at hrun
  split at hrun
  case h_2 => exact absurd hrun (by simp)
  case h_1 first rest hactive =>
    cases hrun
    have hsame : (d.renamed first rest).files = d.files := by
      rw [WalDir.files, WalDir.files, hactive]
      simp [WalDir.renamed]
    have hrecords := congrArg List.flatten hsame
    have hlast : d.files[d.segments.length]? = some (first :: rest) := by
      rw [WalDir.files, hactive]
      simp
    -- The new name is that of the first and the last record of the file.
    have hfile : ∀ o e, (first :: rest)[o]? = some e → e.1 = d.start d.segments.length + o + 1 := by
      intro o e he
      have ho : o < d.fileLength d.segments.length := by
        rw [WalDir.fileLength, hlast]
        exact (List.getElem?_eq_some_iff.1 he).1
      refine hd.seq _ e ?_
      rw [← WalDir.getElem?_file ho, hlast]
      exact he
    refine ⟨⟨prefix_append _ _, ?_, fun i _ => ?_, fun i => ?_, ?_⟩, ⟨?_, fun i s hs => ?_, ?_⟩,
      hrecords⟩
    · rw [hsame]
    · rw [WalDir.start, WalDir.start, hsame]
    · rw [WalDir.fileLength, WalDir.fileLength, hsame]
    · rewrite [WalDir.records, WalDir.records, hsame]
      exact prefix_refl _
    · rw [WalDir.records, hsame]
      exact hd.seq
    · rw [WalDir.start, hsame]
      rcases Nat.lt_or_ge i d.segments.length with hlt | hge
      · rw [WalDir.renamed, List.getElem?_append_left hlt] at hs
        exact hd.named i s hs
      · have hi : i = d.segments.length := by
          have := (List.getElem?_eq_some_iff.1 hs).1
          simp [WalDir.renamed] at this
          omega
        rw [hi, WalDir.renamed, List.getElem?_concat_length] at hs
        cases hs
        refine ⟨?_, ?_⟩
        · rw [hi]
          exact hfile 0 first rfl
        · have hlen : 0 < (first :: rest).length := Nat.succ_pos _
          have hget : (first :: rest)[(first :: rest).length - 1]? =
              some ((first :: rest).getLast (cons_ne_nil _ _)) := by
            rw [List.getElem?_eq_getElem (by omega), getLast_eq_getElem]
          have hname := hfile _ _ hget
          rw [hi]
          show ((first :: rest).getLast (cons_ne_nil _ _)).1 =
            d.start d.segments.length + (first :: rest).length
          omega
    · rw [hsame]
      exact hd.nonempty

theorem Listing.grow (h : Listing d m a files) (hgrow : Grows d d') : Listing d' m a files where
  le := h.le.trans hgrow.segments.length_le
  eq := by
    obtain ⟨_, hmore⟩ := hgrow.segments
    rw [h.eq, ← hmore, take_append_of_le_length h.le]

theorem Reading.grow (h : Reading d pos m a r) (hgrow : Grows d d')
    (hpending : r.fileIdx < m → Pending d' m a) : Reading d' pos m a r := by
  have hstart := hgrow.start _ h.exists_file
  have hlength := hgrow.fileLength r.fileIdx
  refine ⟨h.listing.grow hgrow, h.file, h.idx, hpending, h.exists_file.trans_le hgrow.files,
    h.offset.trans hlength, ?_⟩
  rw [hstart]
  rcases h.place with hat | ⟨hbefore, htarget, hwhere⟩
  · exact .inl hat
  · exact .inr ⟨hbefore, htarget, hwhere.imp_right fun hin => by omega⟩

theorem Listing.awaits (h : Listing d m true files) {i : Nat} (hi : i ≤ m) :
    ((files.drop i).any fun f => f.path = .active) = true := by
  have hget : (files.drop i)[m - i]? = some ⟨.active, activeSeq, activeSeq⟩ := by
    rw [getElem?_drop, Nat.add_sub_cancel' hi]
    exact h.getElem_active
  exact any_eq_true.2 ⟨_, mem_of_getElem? hget, decide_eq_true rfl⟩

/-! ## The invariant -/

def Server.due (server : Server R) : Nat :=
  server.fromSeq - 1 + server.sent.length

/-- `last_seq` is the number before the one that is due: in every poll, and in the catch-up once a
record was sent.  Before that, the record that the client asked for is in the file being read. -/
def Server.PhaseOk (d : WalDir R) (server : Server R) : Phase → Prop
  | .listing live => if live then server.lastSeq = server.due
      else server.sent = [] ∧ server.lastSeq = server.fromSeq
  | .opening live files => ∃ m a, Listing d m a files ∧ Pending d m a ∧ files ≠ [] ∧
      if live then server.lastSeq = server.due
      else server.sent = [] ∧ server.lastSeq = server.fromSeq ∧
        (a = true ∨ server.fromSeq ≤ d.start m)
  | .reading _ reader => ∃ m a, Reading d server.due m a reader ∧ (server.lastSeq = server.due ∨
        server.due < d.start reader.fileIdx + d.fileLength reader.fileIdx)
  | .closed => False

structure Streaming (d : WalDir R) (server : Server R) : Prop where
  sent : server.sent = (d.records.drop (server.fromSeq - 1)).take server.sent.length
  known : server.fromSeq ≤ d.records.length
  phase : server.PhaseOk d server.phase

variable {server server' : Server R}

theorem Streaming.due_le (h : Streaming d server) : server.due ≤ d.records.length := by
  have hlen := congrArg length h.sent
  rw [length_take, length_drop] at hlen
  have hknown := h.known
  unfold Server.due
  omega

theorem Streaming.grow (h : Streaming d server) (hgrow : Grows d d')
    (hpending : server.phase.awaitsActive = true → d'.segments = d.segments ∧
      (d.active.isSome → d'.active.isSome)) : Streaming d' server := by
  have hsent : server.sent = (d'.records.drop (server.fromSeq - 1)).take server.sent.length := by
    obtain ⟨_, hmore⟩ := hgrow.records
    have hle := h.due_le
    unfold Server.due at hle
    rw [← hmore, drop_append_of_le_length (by omega),
      take_append_of_le_length (by rw [length_drop]; omega)]
    exact h.sent
  refine ⟨hsent, h.known.trans hgrow.records.length_le, ?_⟩
  have hphase := h.phase
  cases hp : server.phase with
  | listing =>
    rw [hp] at hphase
    exact hphase
  | opening live =>
    rw [hp] at hphase hpending
    obtain ⟨m, a, hlisting, hpend, hne, hcase⟩ := hphase
    refine ⟨m, a, hlisting.grow hgrow, fun ha => ?_, hne, ?_⟩
    · subst ha
      obtain ⟨hm, hsome⟩ := hpend rfl
      obtain ⟨hsegs, hactive⟩ := hpending (hlisting.awaits (Nat.zero_le m))
      exact ⟨hm.trans (by rw [hsegs]), hactive hsome⟩
    · cases live with
      | true => exact hcase
      | false =>
        refine ⟨hcase.1, hcase.2.1, hcase.2.2.imp_right fun hle => hle.trans ?_⟩
        -- The segments of the list are still the first ones.
        have hm : m ≤ d.files.length := by
          rw [files, length_append, length_map]
          exact hlisting.le.trans (Nat.le_add_right _ _)
        rcases Nat.lt_or_eq_of_le hm with hlt | heq
        · rw [hgrow.start m hlt]
        · cases m with
          | zero => exact Nat.zero_le _
          | succ m =>
            rw [start_succ, start_succ, hgrow.start m (by omega)]
            exact Nat.add_le_add_left (hgrow.fileLength m) _
  | reading =>
    rw [hp] at hphase hpending
    obtain ⟨m, a, hreading, hcase⟩ := hphase
    refine ⟨m, a, hreading.grow hgrow fun hlt ha => ?_, hcase.imp_right fun hin => ?_⟩
    · subst ha
      obtain ⟨hm, hsome⟩ := hreading.pending hlt rfl
      obtain ⟨hsegs, hactive⟩ := hpending (hreading.listing.awaits hlt)
      exact ⟨hm.trans (by rw [hsegs]), hactive hsome⟩
    · rw [hgrow.start _ hreading.exists_file]
      exact hin.trans_le (Nat.add_le_add_left (hgrow.fileLength _) _)
  | closed =>
    rw [hp] at hphase
    exact hphase.elim

section

variable (hd : d.Numbered) {live : Bool}
include hd

theorem listWalFiles_ne_nil : d.listWalFiles ≠ [] := by
  intro hnil
  have hlen := length_listWalFiles d
  rw [hnil] at hlen
  exact hd.nonempty (length_eq_zero_iff.1 hlen.symm)

theorem streaming_listed (h : Streaming d server) (hphase : server.phase = .listing live) :
    Streaming d { server with phase := .opening live d.listWalFiles } := by
  have hok := h.phase
  rw [hphase] at hok
  refine ⟨h.sent, h.known, _, _, listing_listWalFiles d, fun hsome => ⟨rfl, hsome⟩,
    listWalFiles_ne_nil hd, ?_⟩
  cases live with
  | true => exact hok
  | false =>
    refine ⟨hok.1, hok.2, ?_⟩
    cases hactive : d.active with
    | some => exact .inl rfl
    | none =>
      refine .inr (h.known.trans_eq ?_)
      rw [← d.start_length, files, hactive]
      simp

theorem Streaming.opened (h : Streaming d server) (hphase : server.phase = .opening live files) :
    ∃ reader, WalReader.openFromSeq d files (server.targetSeq live) = some reader ∧
      reader.files = files ∧ Streaming d { server with phase := .reading live reader } := by
  have hok := h.phase
  rw [hphase] at hok
  obtain ⟨m, a, hlisting, hpend, hne, hcase⟩ := hok
  have htarget : server.targetSeq live = server.due + 1 ∨
      server.targetSeq live = 0 ∧ server.due = 0 := by
    cases live with
    | true => exact .inl (congrArg (· + 1) hcase)
    | false =>
      have hdue : server.due = server.fromSeq - 1 := by
        rw [Server.due, hcase.1]
        rfl
      have hfrom : server.targetSeq false = server.fromSeq := rfl
      omega
  obtain ⟨reader, hopen, hreading, hfiles, hwhere⟩ := hlisting.openFromSeq hd hpend hne htarget
  refine ⟨reader, hopen, hfiles, h.sent, h.known, m, a, hreading, ?_⟩
  show server.lastSeq = server.due ∨ _
  cases live with
  | true => exact .inl hcase
  | false =>
    have hfrom : server.targetSeq false = server.fromSeq := rfl
    rcases hwhere with hin | hzero | ⟨hm, hlast⟩
    · exact .inr hin
    · exact .inl (by rw [hcase.2.1]; omega)
    · -- The record is in no segment of the list, so it is in the active file.
      rcases Nat.eq_zero_or_pos server.fromSeq with hzero | hpos
      · exact .inl (by rw [hcase.2.1]; omega)
      refine .inr ?_
      have hknown := h.known
      rcases hcase.2.2 with rfl | hle
      · obtain ⟨hmlen, hsome⟩ := hpend rfl
        have hlen := hlisting.length
        simp only [if_true] at hlen
        have hidx : reader.fileIdx = m := by omega
        rw [← WalDir.start_succ, hidx]
        have hall : m + 1 = d.files.length := by
          obtain ⟨_, hactive⟩ := isSome_iff_exists.1 hsome
          rw [WalDir.files, hactive, hmlen]
          simp
        rw [hall, d.start_length]
        show server.due < _
        omega
      · exact absurd hm (by show ¬ d.start m ≤ server.due; omega)

theorem Streaming.read (h : Streaming d server) (hphase : server.phase = .reading live r) :
    (∃ server' r', server.serve d = some server' ∧ server'.phase = .reading live r' ∧
      Streaming d server' ∧ server'.fromSeq = server.fromSeq ∧ r'.files = r.files ∧
      r'.rest d < r.rest d) ∨
    (server.serve d = some { server with phase := .listing true } ∧
      Streaming d { server with phase := .listing true } ∧
      d.start r.files.length ≤ server.due) := by
  have hok := h.phase
  rw [hphase] at hok
  obtain ⟨m, a, hreading, hcase⟩ := hok
  rcases hreading.next hd with ⟨entry, r', hnext, hget, hseq, h', hfiles, hrest⟩ |
    ⟨r', hnext, h', hfiles, hrest, hstay⟩ | ⟨hnext, hlast, hend⟩
  · simp only [Server.serve, hphase, hnext]
    refine .inl ⟨_, r', rfl, rfl, ⟨?_, h.known, m, a, ?_, ?_⟩, rfl, hfiles, hrest⟩
    · rw [length_append, length_singleton, take_add_one, List.getElem?_drop, ← h.sent]
      have hdue : server.fromSeq - 1 + server.sent.length = server.due := rfl
      rw [hdue, hget]
      rfl
    · have hdue : ({ server with
          sent := server.sent ++ [entry], lastSeq := entry.1,
          phase := .reading live r' } : Server R).due = server.due + 1 := by
        simp [Server.due, Nat.add_assoc]
      rw [hdue]
      exact h'
    · refine .inl (hseq.trans ?_)
      simp [Server.due, Nat.add_assoc]
  · have hserve : server.serve d = some { server with phase := .reading live r' } := by
      unfold Server.serve
      rcases hnext with hnext | hnext <;> simp only [hphase, hnext]
    refine .inl ⟨_, r', hserve, rfl, ⟨h.sent, h.known, m, a, h', ?_⟩, rfl, hfiles, hrest⟩
    refine hcase.imp_right fun hin => ?_
    rw [hstay hin]
    exact hin
  · simp only [Server.serve, hphase, hnext]
    refine .inr ⟨trivial, ⟨h.sent, h.known, ?_⟩, hend⟩
    rcases hcase with hcaught | hin
    · exact hcaught
    · rw [← WalDir.start_succ, hlast] at hin
      omega

theorem Streaming.serve (h : Streaming d server)
    (hrun : server.serve d = some server') : Streaming d server' := by
  cases hphase : server.phase with
  | listing =>
    unfold Server.serve at hrun
    rw [hphase] at hrun
    exact some.inj hrun ▸ streaming_listed hd h hphase
  | opening =>
    obtain ⟨_, hopen, -, h'⟩ := h.opened hd hphase
    unfold Server.serve at hrun
    simp only [hphase, hopen] at hrun
    exact some.inj hrun ▸ h'
  | reading =>
    rcases h.read hd hphase with ⟨_, _, hserve, -, h', -⟩ | ⟨hserve, h', -⟩
    · exact some.inj (hserve.symm.trans hrun) ▸ h'
    · exact some.inj (hserve.symm.trans hrun) ▸ h'
  | closed =>
    have hok := h.phase
    rw [hphase] at hok
    exact hok.elim

end

namespace Replication

variable {s s' : Replication R} {actions : List (Action R)}

structure Healthy (s : Replication R) : Prop where
  numbered : s.dir.Numbered
  nextSeq : s.nextSeq = s.dir.records.length + 1
  streaming : ∀ server ∈ s.server, Streaming s.dir server

theorem healthy_start : Healthy ({} : Replication R) where
  numbered := ⟨by simp [records, files], by simp, by simp [files]⟩
  nextSeq := rfl
  streaming := by simp

theorem Healthy.step (h : Healthy s) {action : Action R} (hok : s.Undisturbed action)
    (hrun : s.step action = some s') : Healthy s' := by
  cases action with
  | append payload =>
    obtain ⟨dir, hdir, rfl⟩ := map_eq_some_iff.1 hrun
    obtain ⟨l, hl, rfl⟩ := map_eq_some_iff.1 hdir
    have hmore := records_active s.dir [(s.nextSeq, payload)]
    rw [hl, getD_some] at hmore
    obtain ⟨hgrow, hnumbered⟩ := grows_active h.numbered [(s.nextSeq, payload)]
      (by rw [hl, getD_some]) fun p e he => by
        cases p with
        | zero => exact some.inj he ▸ h.nextSeq
        | succ => exact absurd he (by simp)
    refine ⟨hnumbered, ?_, fun server hserver => (h.streaming server hserver).grow hgrow fun _ =>
      ⟨rfl, fun _ => rfl⟩⟩
    rw [hmore, length_append, h.nextSeq]
    rfl
  | rename =>
    obtain ⟨dir, hdir, rfl⟩ := map_eq_some_iff.1 hrun
    obtain ⟨hgrow, hnumbered, hsame⟩ := grows_rename h.numbered hdir
    refine ⟨hnumbered, ?_, fun server hserver => (h.streaming server hserver).grow hgrow
      fun hawait => ?_⟩
    · rw [hsame, h.nextSeq]
    · exact absurd hawait (by rw [hok server hserver]; simp)
  | create =>
    obtain ⟨dir, hdir, rfl⟩ := map_eq_some_iff.1 hrun
    unfold create at hdir
    split at hdir
    case h_2 => exact absurd hdir (by simp)
    case h_1 hnone =>
      cases hdir
      have hsame := records_active s.dir []
      rw [append_nil, append_nil, hnone, getD_none] at hsame
      obtain ⟨hgrow, hnumbered⟩ := grows_active h.numbered []
        (by rw [hnone, append_nil, getD_none]) (by simp)
      refine ⟨hnumbered, ?_, fun server hserver => (h.streaming server hserver).grow hgrow fun _ =>
        ⟨rfl, fun _ => rfl⟩⟩
      rw [hsame, h.nextSeq]
  | connect fromSeq =>
    unfold Replication.step at hrun
    dsimp only at hrun
    split_ifs at hrun with hserver hserve
    · cases hrun
      refine ⟨h.numbered, h.nextSeq, fun server hmem => ?_⟩
      cases hmem
      have hlt : fromSeq < s.nextSeq := hok
      have hnext := h.nextSeq
      exact ⟨by simp, by show fromSeq ≤ s.dir.records.length; omega, rfl, rfl⟩
    · exact some.inj hrun ▸ h
  | serve =>
    obtain ⟨_, hserve, rfl⟩ := map_eq_some_iff.1 hrun
    obtain ⟨server, hserver, hserve⟩ := bind_eq_some_iff.1 hserve
    refine ⟨h.numbered, h.nextSeq, fun server'' hmem => ?_⟩
    cases hmem
    exact (h.streaming server hserver).serve h.numbered hserve

/-! ## Everything is sent in the end -/

def serveAlone (n : Nat) : List (Action R) :=
  replicate n .serve

theorem run_serve {server server' : Server R} (hserver : s.server = some server)
    (hserve : server.serve s.dir = some server')
    (hrun : run step { s with server := some server' } (serveAlone n) = some s') :
    run step s (serveAlone (n + 1)) = some s' := by
  have hstep : s.step .serve = some { s with server := some server' } := by
    show ((s.server.bind fun server => server.serve s.dir).map fun server =>
      { s with server := some server }) = _
    rw [hserver, bind_some, hserve]
    rfl
  show (s.step .serve).bind _ = _
  rw [hstep]
  exact hrun

theorem drain (hd : s.dir.Numbered) {server : Server R} {live : Bool}
    (hserver : s.server = some server) (h : Streaming s.dir server)
    (hphase : server.phase = .reading live r) :
    ∃ n server', run step s (serveAlone n) = some { s with server := some server' } ∧
      Streaming s.dir server' ∧ server'.phase = .listing true ∧
      server'.fromSeq = server.fromSeq ∧
      (s.dir.files.length ≤ r.files.length → s.dir.records.length ≤ server'.due) := by
  -- The induction is on what the reader has left to read.
  induction hrest : r.rest s.dir using Nat.strong_induction_on generalizing server r s with
  | _ rest ih =>
    rcases h.read hd hphase with ⟨server₁, r₁, hserve, hphase₁, h₁, hfrom, hfiles, hlt⟩ |
      ⟨hserve, h₁, hend⟩
    · obtain ⟨n, server', hrun, h', hlisting, hfrom', hall⟩ :=
        ih (r₁.rest s.dir) (hrest ▸ hlt) (s := { s with server := some server₁ }) hd rfl h₁ hphase₁
          rfl
      refine ⟨n + 1, server', run_serve hserver hserve hrun, h', hlisting, hfrom'.trans hfrom, ?_⟩
      rw [← hfiles]
      exact hall
    · refine ⟨1, _, run_serve hserver hserve rfl, h₁, rfl, rfl, fun hall => ?_⟩
      rw [← s.dir.start_length]
      exact (start_mono hall).trans hend

/-- The server, left alone, sends all that is there. -/
def CatchesUp (s : Replication R) (server : Server R) : Prop :=
  ∃ n server', run step s (serveAlone n) = some { s with server := some server' } ∧
    Streaming s.dir server' ∧ server'.fromSeq = server.fromSeq ∧
    s.dir.records.length ≤ server'.due

theorem drain_listing (hd : s.dir.Numbered) {server : Server R} {live : Bool}
    (hserver : s.server = some server) (h : Streaming s.dir server)
    (hphase : server.phase = .listing live) : CatchesUp s server := by
  have hlisted := streaming_listed hd h hphase
  have hlist : server.serve s.dir =
      some { server with phase := .opening live s.dir.listWalFiles } := by
    unfold Server.serve
    rw [hphase]
  obtain ⟨reader, hopen, hfiles, hopened⟩ := hlisted.opened hd rfl
  have hopens : ({ server with phase := .opening live s.dir.listWalFiles } : Server R).serve s.dir =
      some { server with phase := .reading live reader } := by
    unfold Server.serve
    simp only [hopen]
  obtain ⟨n, server', hrun, h', -, hfrom, hall⟩ := drain (r := reader)
    (s := { s with server := some { server with phase := .reading live reader } }) hd rfl
      hopened rfl
  refine ⟨n + 2, server', run_serve hserver hlist (run_serve rfl hopens hrun), h', hfrom, hall ?_⟩
  rw [hfiles, length_listWalFiles]

theorem drain_reading (hd : s.dir.Numbered) {server : Server R} {live : Bool}
    (hserver : s.server = some server) (h : Streaming s.dir server)
    (hphase : server.phase = .reading live r) : CatchesUp s server := by
  obtain ⟨n, server₁, hrun₁, h₁, hlisting, hfrom₁, -⟩ := drain hd hserver h hphase
  obtain ⟨k, server', hrun', h', hfrom, hall⟩ :=
    drain_listing (s := { s with server := some server₁ }) hd rfl h₁ hlisting
  refine ⟨n + k, server', ?_, h', hfrom.trans hfrom₁, hall⟩
  rw [serveAlone, replicate_add, run_append]
  show (run step s (serveAlone n)).bind _ = _
  rw [hrun₁]
  exact hrun'

theorem catchesUp (hd : s.dir.Numbered) {server : Server R} (hserver : s.server = some server)
    (h : Streaming s.dir server) : CatchesUp s server := by
  cases hphase : server.phase with
  | listing => exact drain_listing hd hserver h hphase
  | opening live =>
    obtain ⟨reader, hopen, -, hopened⟩ := h.opened hd hphase
    have hserve : server.serve s.dir = some { server with phase := .reading live reader } := by
      unfold Server.serve
      simp only [hphase, hopen]
    obtain ⟨n, server', hrun, h', hfrom, hall⟩ := drain_reading
      (s := { s with server := some { server with phase := .reading live reader } }) hd rfl hopened
      rfl
    exact ⟨n + 1, server', run_serve hserver hserve hrun, h', hfrom, hall⟩
  | reading => exact drain_reading hd hserver h hphase
  | closed =>
    have hok := h.phase
    rw [hphase] at hok
    exact hok.elim

end Replication

/-! ## The stream -/

theorem filter_of_numbered {l : List (Nat × R)}
    (hseq : ∀ p e, l[p]? = some e → e.1 = k + p + 1) (fromSeq : Nat) :
    (l.filter fun e => fromSeq ≤ e.1) = l.drop (fromSeq - 1 - k) := by
  induction l generalizing k with
  | nil => simp
  | cons e l ih =>
    have hhead : e.1 = k + 1 := hseq 0 e rfl
    have htail := ih (k := k + 1) fun p e' he' => by
      have := hseq (p + 1) e' (by simpa using he')
      omega
    by_cases hle : fromSeq ≤ e.1
    · rw [filter_cons_of_pos (by simpa using hle), htail]
      rw [show fromSeq - 1 - k = 0 by omega, show fromSeq - 1 - (k + 1) = 0 by omega]
      rfl
    · rw [filter_cons_of_neg (by simpa using hle), htail]
      rw [show fromSeq - 1 - k = fromSeq - 1 - (k + 1) + 1 by omega, drop_succ_cons]

theorem WalDir.Numbered.filter_eq (hd : d.Numbered) (fromSeq : Nat) :
    (d.records.filter fun e => fromSeq ≤ e.1) = d.records.drop (fromSeq - 1) := by
  have hseq : ∀ p e, d.records[p]? = some e → e.1 = 0 + p + 1 := fun p e he => by
    rw [hd.seq p e he, Nat.zero_add]
  exact filter_of_numbered hseq fromSeq

theorem Streaming.seqs (hd : d.Numbered) (h : Streaming d server) :
    server.sent.map Prod.fst = range' (max server.fromSeq 1) server.sent.length := by
  refine ext_getElem? fun i => ?_
  rcases Nat.lt_or_ge i server.sent.length with hi | hi
  · have hle := h.due_le
    unfold Server.due at hle
    have hget : server.sent[i]? = d.records[server.fromSeq - 1 + i]? := by
      conv_lhs => rw [h.sent]
      rw [getElem?_take_of_lt hi, getElem?_drop]
    rw [getElem?_map, getElem?_range' hi]
    have hlt : server.fromSeq - 1 + i < d.records.length := by omega
    rw [hget, getElem?_eq_getElem hlt, map_some, hd.seq _ _ (getElem?_eq_getElem hlt)]
    congr 1
    omega
  · rw [getElem?_eq_none_iff.2 (by simpa using hi), getElem?_eq_none_iff.2 (by simpa using hi)]

namespace Replication

variable {s : Replication R} {actions : List (Action R)}

/-- **The stream is complete.**  If the client asks for a record that is there and no rotation comes
between the moment the active file is listed and the moment it is opened, then at every moment the
client has been sent the records from the one it asked for on, without a gap, in order and once
each, and the server, left alone, sends all that are there. -/
theorem sent_complete (hok : Along step Undisturbed ({} : Replication R) actions)
    (hrun : run step ({} : Replication R) actions = some s) (hserver : s.server = some server) :
    (server.sent <+: s.dir.records.filter fun e => server.fromSeq ≤ e.1) ∧
      server.sent.map Prod.fst = List.range' (max server.fromSeq 1) server.sent.length ∧
      ∃ n server', run step s (List.replicate n .serve) = some { s with server := some server' } ∧
        server'.sent = s.dir.records.filter fun e => server.fromSeq ≤ e.1 := by
  have h : Healthy s := run_invariant (fun h hok hstep => h.step hok hstep) healthy_start hok hrun
  have hstream := h.streaming server hserver
  rw [h.numbered.filter_eq]
  refine ⟨?_, hstream.seqs h.numbered, ?_⟩
  · rw [hstream.sent]
    exact take_prefix _ _
  · obtain ⟨n, server', hrun', h', hfrom, hall⟩ := catchesUp h.numbered hserver hstream
    refine ⟨n, server', hrun', ?_⟩
    rw [h'.sent, hfrom, take_of_length_le]
    rw [length_drop]
    unfold Server.due at hall
    omega

/-- A client that is one record behind, a rotation after the server has opened the active file, and
a record that is written after that. -/
theorem sent_complete_rotated :
    ∃ (s : Replication Unit) (server : Server Unit), run step ({} : Replication Unit)
        [.append (), .append (), .connect 2, .serve, .serve, .rename, .create, .append ()] =
          some s ∧
      s.server = some server ∧
      ∃ n server', run step s (List.replicate n .serve) = some { s with server := some server' } ∧
        server'.sent = [(2, ()), (3, ())] := by
  simp only [exists_and_left]
  refine exists_run (P := fun s => ∃ server, s.server = some server ∧
    (s.dir.records.filter fun e => server.fromSeq ≤ e.1) = [(2, ()), (3, ())])
      (by decide +kernel) ?_
  rintro s hrun ⟨server, hserver, hlog⟩
  obtain ⟨-, -, n, server', hrun', hsent⟩ := sent_complete (by decide +kernel) hrun hserver
  exact ⟨server, hserver, n, server', hrun', hsent.trans hlog⟩

/-- A client that has everything asks for the next record: the server takes that number for the last
one sent, and the record is lost.  And while the server reads a segment the active file is rotated:
the name it listed is that of the new active file, and the records in between are lost. -/
theorem sent_fails : (((run step ({} : Replication Unit)
        [.append (), .connect 2, .serve, .serve, .serve, .serve, .append (), .append (), .serve,
          .serve, .serve, .serve, .serve]).bind fun s => s.server.map fun server =>
        (server.fromSeq, server.sent.map Prod.fst, s.dir.records.map Prod.fst)) =
      some (2, [3], [1, 2, 3])) ∧
    ((run step ({} : Replication Unit)
        [.append (), .rename, .create, .append (), .connect 1, .serve, .serve, .serve, .rename,
          .create, .append (), .serve, .serve]).bind fun s => s.server.map fun server =>
        (server.fromSeq, server.sent.map Prod.fst, s.dir.records.map Prod.fst)) =
      some (1, [1, 3], [1, 2, 3]) := by
  decide +kernel

end Replication

end Rsx.Cast
