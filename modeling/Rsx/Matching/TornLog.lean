import Rsx.Matching.CrashRecovery

/-!
# A log cut at any byte

A crash leaves a prefix of the bytes that were written, and the reader takes the frames that are
whole.  Recovery executes an accepted order again even when its fills are behind the cut, and does
not write them: the engine and the readers of its log agree on the positions when no order is cut
that way.
-/

namespace Rsx.Matching

open Book Orderbook Cast List

variable {e e' c : Engine} {r r' : Replay} {saved : Option MatchingCheckpoint}
  {dir : WalDir Record} {config : BookConfig} {capacity : Nat}
  {later records : List Record} {a : Action} {actions : List Action}

/-! ## Frames -/

/-- The bytes of a record in the file: a header of 16 bytes and the payload. -/
def Record.frameLen : Record → Nat
  | .orderAccepted .. | .fill .. | .orderDone .. | .bbo .. => 16 + 128
  | .orderInserted .. | .orderCancelled .. | .orderFailed .. | .configApplied .. => 16 + 64

def wholeFrames : Nat → List (Nat × Record) → List (Nat × Record)
  | _, [] => []
  | bytes, entry :: entries =>
    if entry.2.frameLen ≤ bytes then entry :: wholeFrames (bytes - entry.2.frameLen) entries
    else []

theorem wholeFrames_eq_take (bytes : Nat) (entries : List (Nat × Record)) :
    wholeFrames bytes entries = entries.take (wholeFrames bytes entries).length := by
  induction entries generalizing bytes with
  | nil => rfl
  | cons entry entries ih =>
    unfold wholeFrames
    split
    · rw [length_cons, take_succ_cons, ← ih]
    · rfl

/-! ## Fills on both sides of the cut -/

def Record.isAccepted : Record → Bool
  | .orderAccepted _ => true
  | _ => false

/-- What is behind a cut does not begin inside the fills of an order: an order is accepted before
the first fill. -/
def Unbroken (lost : List Record) : Prop :=
  ∀ record ∈ lost.find? fun record => record.isFill || record.isAccepted, record.isFill = false
  deriving Decidable

theorem loggedPosition_filter (records : List Record) (u : Nat) :
    loggedPosition (records.filter Record.isFill) u = loggedPosition records u := by
  induction records with
  | nil => rfl
  | cons record records ih =>
    unfold loggedPosition at ih ⊢
    cases record with
    | fill => rw [filter_cons_of_pos rfl, map_cons, sum_cons, ih]; rfl
    | orderAccepted | orderInserted | orderCancelled | orderDone | orderFailed | bbo
    | configApplied =>
      rw [filter_cons_of_neg (by simp [Record.isFill]), ih]
      exact (zero_add _).symm

theorem Unbroken.no_fill {tail : List Record} (h : Unbroken (tail ++ later))
    (hquiet : ∀ record ∈ tail, record.isAccepted = false) :
    ∀ record ∈ tail, record.isFill = false := by
  induction tail with
  | nil => simp
  | cons head tail ih =>
    have hhead : head.isFill = false := by
      by_contra hfill
      have hfill : head.isFill = true := by simpa using hfill
      have hfind : ((head :: tail) ++ later).find?
          (fun record => record.isFill || record.isAccepted) = some head := by
        rw [cons_append, List.find?_cons_of_pos (by simp [hfill])]
      have := h head hfind
      rw [hfill] at this
      exact absurd this (by simp)
    have hskip : Unbroken (tail ++ later) := by
      have hquiet₀ := hquiet head mem_cons_self
      unfold Unbroken at h ⊢
      rwa [cons_append, List.find?_cons_of_neg (by simp [hhead, hquiet₀])] at h
    intro record hmem
    rcases mem_cons.1 hmem with rfl | hmem
    · exact hhead
    · exact ih hskip (fun record hmem => hquiet record (mem_cons_of_mem _ hmem)) record hmem

/-! ## Replay of what is left -/

/-- The records `kept` bring the replay to the engine `c'` of an action boundary, and hold its
fills. -/
structure Boundary (c : Engine) (r : Replay) (actions : List Action) (kept : List Record)
    (c' : Engine) (r' : Replay) : Prop where
  reached : ∃ done, done <+: actions ∧ run Engine.step c done = some c'
  replay : run Replay.apply r kept = some r'
  mirrors : Mirrors c' r'
  fills : ∃ records, c'.wal = c.wal.appendAll records ∧
    records.filter Record.isFill = kept.filter Record.isFill
  net : ∀ u, c'.book.users.netOf u = c.book.users.netOf u + loggedPosition kept u

theorem Boundary.start (hm : Mirrors c r) (actions : List Action) :
    Boundary c r actions [] c r where
  reached := ⟨[], nil_prefix, rfl⟩
  replay := rfl
  mirrors := hm
  fills := ⟨[], rfl, rfl⟩
  net _ := (add_zero _).symm

theorem Boundary.cons {kept : List Record}
    (hstep : e.step a = some e') (hlogged : Logged e e' r r' records) {c' : Engine} {r'' : Replay}
    (h : Boundary e' r' actions kept c' r'') :
    Boundary e r (a :: actions) (records ++ kept) c' r'' where
  reached := by
    obtain ⟨done, hdone, hrun⟩ := h.reached
    refine ⟨a :: done, prefix_cons_inj a |>.2 hdone, ?_⟩
    rw [run, hstep]
    exact hrun
  replay := by
    rw [run_append, hlogged.run_apply]
    exact h.replay
  mirrors := h.mirrors
  fills := by
    obtain ⟨records', hwal, hfills⟩ := h.fills
    refine ⟨records ++ records', ?_, ?_⟩
    · rw [hwal, hlogged.wal, WalWriter.appendAll_append]
    · rw [filter_append, filter_append, hfills]
  net u := by rw [h.net, hlogged.net, loggedPosition_append, add_assoc]

theorem Record.Quiet.not_accepted {record : Record} (h : record.Quiet) :
    record.isAccepted = false := by
  cases record with
  | orderAccepted => exact h.elim
  | fill | orderInserted | orderCancelled | orderDone | orderFailed | bbo | configApplied => rfl

theorem Logged.cut
    (hstep : e.step a = some e') (hlogged : Logged e e' r r' records) (hm : Mirrors e r) {k : Nat}
    (hk : k < records.length) (hunbroken : Unbroken (records.drop k ++ later)) :
    ∃ c' r'', Boundary e r (a :: actions) (records.take k) c' r'' := by
  obtain ⟨rfl, -⟩ | ⟨head, tail, rfl, hhead, hquiet, happly⟩ := hlogged.replay
  · exact absurd hk (by simp)
  cases k with
  | zero => exact ⟨e, r, Boundary.start hm _⟩
  | succ k =>
    rw [take_succ_cons]
    have hnone : (tail.drop k).filter Record.isFill = [] := by
      rw [filter_eq_nil_iff]
      intro record hmem
      have hno := hunbroken.no_fill (fun record hmem =>
        (hquiet record (mem_of_mem_drop hmem)).not_accepted) record hmem
      simp [hno]
    have hfills : (head :: tail).filter Record.isFill =
        (head :: tail.take k).filter Record.isFill := by
      conv_lhs => rw [← take_append_drop k tail, ← cons_append, filter_append, hnone, append_nil]
    refine ⟨e', r', ⟨[a], ?_, ?_⟩, ?_, hlogged.mirrors, ⟨_, hlogged.wal, hfills⟩, fun u => ?_⟩
    · exact prefix_cons_inj a |>.2 nil_prefix
    · rw [run, hstep]
      rfl
    · rw [run, happly]
      exact run_apply_quiet (fun record hmem => hquiet record (mem_of_mem_take hmem)) r'
    · rw [hlogged.net, ← loggedPosition_filter (head :: tail), hfills, loggedPosition_filter]

theorem Mirrors.cut (hm : Mirrors c r) (hplain : Along Engine.step Engine.Plain c actions)
    (hwithin : Along Engine.step Engine.Within c actions)
    (hrun : run Engine.step c actions = some e) :
    ∃ records, e.wal = c.wal.appendAll records ∧ ∀ k, Unbroken (records.drop k) →
      ∃ c' r', Boundary c r actions (records.take k) c' r' := by
  induction actions generalizing c r with
  | nil =>
    obtain rfl := Option.some.inj hrun
    refine ⟨[], rfl, fun k _ => ⟨c, r, ?_⟩⟩
    rw [take_nil]
    exact Boundary.start hm []
  | cons a actions ih =>
    obtain ⟨e₁, hstep, hrest⟩ := Option.bind_eq_some_iff.1 hrun
    obtain ⟨records₁, _, hlogged⟩ := hm.step hplain.1 hwithin.1 hstep
    obtain ⟨records₂, hwal₂, hcut₂⟩ :=
      ih hlogged.mirrors (hplain.2 e₁ hstep) (hwithin.2 e₁ hstep) hrest
    refine ⟨records₁ ++ records₂, ?_, fun k hunbroken => ?_⟩
    · rw [hwal₂, hlogged.wal, WalWriter.appendAll_append]
    rcases Nat.lt_or_ge k records₁.length with hk | hk
    · rw [drop_append_of_le_length hk.le] at hunbroken
      rw [take_append_of_le_length hk.le]
      exact hlogged.cut hstep hm hk hunbroken
    · rw [drop_append, drop_of_length_le hk] at hunbroken
      rw [take_append, take_of_length_le hk]
      obtain ⟨c', r', h⟩ := hcut₂ _ hunbroken
      exact ⟨c', r', h.cons hstep hlogged⟩

/-- **The fills of a recovered book are in its log.**  Under the conditions of a recovery, with a
log that is cut at any byte behind the checkpoint but not between an accepted order and its fills:
the recovered book is the live one at an action boundary, the log holds the fills up to there, and
the positions are those a reader of the log computes. -/
theorem recover_fills_logged {before after : List Action} {bytes : Nat} (hcap : capacity ≤ NONE)
    (hlot : 0 < config.lotSize)
    (hsized : CompressionMap.WellSized bookInitialMidPrice config.tickSize)
    (hwide : (CompressionMap.new bookInitialMidPrice config.tickSize).Wide)
    (hplain : Along Engine.step Engine.Plain (Engine.new config capacity) (before ++ after))
    (hwithin : Along Engine.step Engine.Within (Engine.new config capacity) (before ++ after))
    (hbefore : run Engine.step (Engine.new config capacity) before = some c)
    (hafter : run Engine.step c after = some e)
    (hsaved : ∀ checkpoint ∈ saved,
      MatchingCheckpoint.capture c.book c.wal.lastSeq = .ok checkpoint)
    (hdir : dir.Numbered) (hrecords : dir.records = wholeFrames bytes e.wal.records)
    (hcovered : ∀ checkpoint ∈ saved, checkpoint.walSeq ≤ dir.records.length)
    (hunbroken : Unbroken ((e.wal.records.drop dir.records.length).map Prod.snd))
    (nowUnixNs bootNs : Nat) :
    ∃ r c' done, recover ⟨config, capacity⟩ saved dir nowUnixNs bootNs = some (.ok r) ∧
      done <+: before ++ after ∧ run Engine.step (Engine.new config capacity) done = some c' ∧
      r.book.exchange.unstamped = c'.book.exchange.unstamped ∧
      (c'.wal.records.map Prod.snd).filter Record.isFill =
        (dir.records.map Prod.snd).filter Record.isFill ∧
      ∀ u, r.book.users.netOf u = loggedPosition (dir.records.map Prod.snd) u := by
  obtain ⟨start, _, book, orderIndex, h⟩ :=
    exists_departs hcap hlot hsized hwide hplain hwithin hbefore hafter hsaved
  obtain ⟨records, hwal, hcut⟩ := h.mirrors.cut h.plain h.within h.follows
  have hlog : e.wal.records.map Prod.snd = start.wal.records.map Prod.snd ++ records := by
    rw [hwal, WalWriter.map_snd_appendAll]
  have hlen : (start.wal.records.map Prod.snd).length = start.wal.lastSeq := by
    rw [length_map, h.counted.lastSeq]
  have hreach : start.wal.lastSeq ≤ dir.records.length := by
    rw [h.covers]
    cases saved with
    | none => exact Nat.zero_le _
    | some checkpoint => exact hcovered checkpoint rfl
  have hdirlog : dir.records.map Prod.snd = start.wal.records.map Prod.snd ++
      records.take (dir.records.length - start.wal.lastSeq) := by
    have htake := wholeFrames_eq_take bytes e.wal.records
    rw [← hrecords] at htake
    conv_lhs => rw [htake]
    rw [map_take, hlog, take_append, hlen, take_of_length_le (hlen.le.trans hreach)]
  have hlost : Unbroken (records.drop (dir.records.length - start.wal.lastSeq)) := by
    rwa [map_drop, hlog, drop_append, hlen,
      drop_of_length_le (hlen.le.trans hreach)] at hunbroken
  obtain ⟨c', r', hb⟩ := hcut _ hlost
  have hreplay : run Replay.apply ⟨book, orderIndex, start.wal.lastSeq⟩
      ((dir.records.drop start.wal.lastSeq).map Prod.snd) = some r' := by
    rw [map_drop, hdirlog, ← hlen, drop_left, hlen]
    exact hb.replay
  obtain ⟨_, hrecover⟩ := recover_of_replay h.load hdir hreach hreplay nowUnixNs bootNs
  obtain ⟨done, hdone, hstart⟩ := h.reached
  obtain ⟨done', ⟨left, hleft⟩, hrun⟩ := hb.reached
  obtain ⟨_, hwal', hfills⟩ := hb.fills
  refine ⟨_, c', done ++ done', hrecover, ⟨left, ?_⟩, ?_, hb.mirrors.alike.exchange.symm, ?_,
    fun u => ?_⟩
  · rw [append_assoc, hleft, hdone]
  · exact run_append_some hstart hrun
  · rw [hwal', WalWriter.map_snd_appendAll, hdirlog, filter_append, filter_append, hfills]
  · rw [hdirlog, loggedPosition_append, ← h.net, ← hb.net]
    exact (hb.mirrors.alike.net u).symm

/-- A buy takes two of three; the log is cut inside the record that follows its fill. -/
theorem recover_fills_logged_whole :
    let actions : List Action := [.limit 1 1 1 0 50100 3, .limit 2 2 0 0 50100 2]
    ∃ e r c' done, run Engine.step (Engine.new ⟨1, 1, 1⟩ 8) actions = some e ∧
      recover ⟨⟨1, 1, 1⟩, 8⟩ none { active := some (wholeFrames 700 e.wal.records) } 0 0 =
        some (.ok r) ∧ done <+: actions ∧
      run Engine.step (Engine.new ⟨1, 1, 1⟩ 8) done = some c' ∧
      r.book.exchange.unstamped = c'.book.exchange.unstamped ∧
      (c'.wal.records.map Prod.snd).filter Record.isFill =
        ((wholeFrames 700 e.wal.records).map Prod.snd).filter Record.isFill ∧
      ∀ u, r.book.users.netOf u =
        loggedPosition ((wholeFrames 700 e.wal.records).map Prod.snd) u := by
  intro actions
  have hall : Along Engine.step Engine.Plain (Engine.new ⟨1, 1, 1⟩ 8) actions ∧
      Along Engine.step Engine.Within (Engine.new ⟨1, 1, 1⟩ 8) actions ∧
      ∃ e ∈ run Engine.step (Engine.new ⟨1, 1, 1⟩ 8) actions,
        Unbroken ((e.wal.records.drop (wholeFrames 700 e.wal.records).length).map Prod.snd) := by
    decide +kernel
  obtain ⟨hplain, hwithin, e, he, hunbroken⟩ := hall
  have hdir := numbered_take he (wholeFrames 700 e.wal.records).length
  rw [← wholeFrames_eq_take] at hdir
  have hrecords : ({ active := some (wholeFrames 700 e.wal.records) } : WalDir Record).records =
      wholeFrames 700 e.wal.records := by
    simp [WalDir.records, WalDir.files]
  have hstart : run Engine.step (Engine.new ⟨1, 1, 1⟩ 8) [] = some (Engine.new ⟨1, 1, 1⟩ 8) := rfl
  have hsaved : ∀ checkpoint ∈ (none : Option MatchingCheckpoint), MatchingCheckpoint.capture
      (Engine.new ⟨1, 1, 1⟩ 8).book (Engine.new ⟨1, 1, 1⟩ 8).wal.lastSeq = .ok checkpoint :=
    fun _ h => absurd h (by simp)
  obtain ⟨r, c', done, hr⟩ := recover_fills_logged (by decide) (by decide) (by decide +kernel)
    (by decide +kernel) hplain hwithin hstart he hsaved hdir hrecords
    (fun _ h => absurd h (by simp)) (hrecords.symm ▸ hunbroken) 0 0
  rw [hrecords] at hr
  exact ⟨e, r, c', done, he, hr⟩

/-- The same run, cut right behind the record that accepts the buy: the replayed buy matches, and
neither user's fill is in the log. -/
theorem recover_adds_fill :
    let actions : List Action := [.limit 1 1 1 0 50100 3, .limit 2 2 0 0 50100 2]
    ∃ e r, run Engine.step (Engine.new ⟨1, 1, 1⟩ 8) actions = some e ∧
      recover ⟨⟨1, 1, 1⟩, 8⟩ none { active := some (wholeFrames 512 e.wal.records) } 0 0 =
        some (.ok r) ∧
      r.book.users.netOf 2 = 2 ∧
      ((wholeFrames 512 e.wal.records).map Prod.snd).filter Record.isFill = [] := by
  simp only [exists_and_left]
  decide +kernel

end Rsx.Matching
