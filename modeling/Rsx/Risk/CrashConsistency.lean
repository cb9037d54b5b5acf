import Rsx.Risk.Rows

/-!
# Restart of a shard

A shard that starts on an empty database takes in the records of the matching engines, and the
persist worker commits a part of what it pushes.  A restart loads the tables, applies the configs of
the day and then the log after the persisted tips.  It gives the positions of the log when the
committed part ends with whole fills: the rows of a fill without its tip are applied a second time.
The fees of a fill are taken again at the rates of the restart.  -/

namespace Rsx.Risk

open Book List PersistEvent

variable {taken later : List MeRecord} {tips : Nat → Nat}

/-- What a running shard does to its books and rates: it takes in a record, or at a tick it applies
the configs that the worker has read again. -/
inductive LiveOp
  | record (record : MeRecord)
  | reload (configs : List SymbolRiskConfig)

/-- The last event that is committed of each fill is its tip. -/
def TipFollows : List PersistEvent → Prop
  | [] => True
  | event :: events => (event.isRow → events.any isTip) ∧ TipFollows events

instance decidableTipFollows : (events : List PersistEvent) → Decidable (TipFollows events)
  | [] => .isTrue trivial
  | event :: events =>
    have := decidableTipFollows events
    inferInstanceAs (Decidable ((event.isRow → events.any isTip) ∧ TipFollows events))

variable {events events' committed : List PersistEvent} {groups : List (List PersistEvent)}

theorem TipFollows.of_append (h : TipFollows (events ++ events')) : TipFollows events' := by
  induction events with
  | nil => exact h
  | cons event events ih => exact ih h.2

namespace Shard

variable {s s₀ : Shard} {fill : FillEvent} {fills : List FillEvent} {log : List MeRecord}
  {charged : Nat → List Int} {ops : List LiveOp}

/-- `drain_config_updates` takes what the worker has put on the ring. -/
def live (s : Shard) : LiveOp → Shard
  | .record record => s.receive record
  | .reload configs => { s with configUpdates := configs }.drainConfigUpdates

theorem fillsOf_filter (p : Nat → Nat → Bool) (s : Shard) (log : List MeRecord) :
    s.fillsOf (log.filter fun record => p record.symbolId record.seq) =
      (s.fillsOf log).filter fun fill => p fill.symbolId fill.seq := by
  induction log with
  | nil => rfl
  | cons record log ih =>
    have hcons : ∀ later, s.fillsOf (record :: later) = s.fillsOf [record] ++ s.fillsOf later :=
      fun later => s.fillsOf_append [record] later
    have hids : ∀ fill ∈ s.fillsOf [record],
        p fill.symbolId fill.seq = p record.symbolId record.seq := by
      intro fill hmem
      obtain ⟨⟨other, hother, hfill⟩, _⟩ := mem_fillsOf.1 hmem
      cases mem_singleton.1 hother
      obtain ⟨hsymbol, hseq⟩ := MeRecord.fill?_ids hfill
      rw [hsymbol, hseq]
    rw [hcons, filter_append, ← ih, filter_cons]
    cases hp : p record.symbolId record.seq with
    | true =>
      rw [if_pos rfl, hcons, filter_eq_self.2 fun fill hmem => (hids fill hmem).trans hp]
    | false =>
      have hnone : ((s.fillsOf [record]).filter fun fill => p fill.symbolId fill.seq) = [] := by
        rw [filter_eq_nil_iff]
        intro fill hmem
        rw [hids fill hmem, hp]
        exact Bool.false_ne_true
      rw [if_neg Bool.false_ne_true, hnone, nil_append]

theorem pairwise_fillsOf (s : Shard) (hlog : Ascending log) :
    (s.fillsOf log).Pairwise fun a b => a.symbolId = b.symbolId → a.seq < b.seq := by
  refine List.Pairwise.filter _ (List.Pairwise.filterMap _ ?_ hlog)
  intro a b hlt fill hfill fill' hfill' hsame
  obtain ⟨hsymbol, hseq⟩ := MeRecord.fill?_ids hfill
  obtain ⟨hsymbol', hseq'⟩ := MeRecord.fill?_ids hfill'
  rw [hseq, hseq']
  exact hlt (hsymbol.symm.trans (hsame.trans hsymbol'))

def fillsAfter (s : Shard) (log : List MeRecord) (symbolId tip : Nat) : List FillEvent :=
  (s.fillsOf log).filter fun fill => fill.symbolId = symbolId ∧ tip < fill.seq

theorem streamOf_fillsAfter (s : Shard) (log : List MeRecord) (symbolId tip other : Nat) :
    streamOf FillEvent.symbolId other (s.fillsAfter log symbolId tip) =
      if other = symbolId then s.fillsAfter log symbolId tip else [] := by
  unfold streamOf fillsAfter
  rw [filter_filter]
  split_ifs with hother
  · subst hother
    apply filter_congr
    intro fill _
    by_cases hsymbol : fill.symbolId = other <;> simp [hsymbol]
  · rw [filter_eq_nil_iff]
    intro fill _ hboth
    rw [Bool.and_eq_true, decide_eq_true_iff, decide_eq_true_iff] at hboth
    exact hother (hboth.1.symm.trans hboth.2.1)

theorem Booked.streams (h : s₀.Booked s fills charged) (hlog : Ascending log) (tips : Nat → Nat)
    {streams : List Nat} (hnodup : streams.Nodup)
    (htips : ∀ symbolId ∈ streams, s.tips symbolId = tips symbolId) :
    ∃ replayed, s₀.Booked (streams.foldl
        (fun s' symbolId => s'.streamToCaughtUp log symbolId (tips symbolId)) s) (fills ++ replayed)
        (fun userId => charged userId ++ s.chargesIn replayed userId) ∧
      ∀ symbolId, streamOf FillEvent.symbolId symbolId replayed =
        if symbolId ∈ streams then s₀.fillsAfter log symbolId (tips symbolId) else [] := by
  induction streams generalizing s fills charged with
  | nil =>
    refine ⟨[], ?_, fun _ => rfl⟩
    simpa [chargesIn] using h
  | cons first streams ih =>
    obtain ⟨hfirst, hrest⟩ := nodup_cons.1 hnodup
    have hahead : ∀ record ∈ log.filter fun record =>
        record.symbolId = first ∧ tips first < record.seq, s.tips record.symbolId < record.seq := by
      intro record hmem
      obtain ⟨_, hcond⟩ := mem_filter.1 hmem
      obtain ⟨hsymbol, hlater⟩ := of_decide_eq_true hcond
      rw [hsymbol, htips first mem_cons_self]
      exact hlater
    obtain ⟨hbooked, htipped, hfees⟩ := h.run ingests_applyRecord (hlog.filter _) hahead
    have hfills : s₀.fillsOf (log.filter fun record =>
        record.symbolId = first ∧ tips first < record.seq) =
        s₀.fillsAfter log first (tips first) :=
      fillsOf_filter (fun symbolId seq => symbolId = first ∧ tips first < seq) s₀ log
    rw [hfills] at hbooked
    obtain ⟨replayed, hall, hstreams⟩ := ih hbooked hrest fun symbolId hmem => by
      rw [← htips symbolId (mem_cons_of_mem first hmem)]
      refine htipped.same symbolId fun record hrecord => ?_
      obtain ⟨_, hcond⟩ := mem_filter.1 hrecord
      rw [(of_decide_eq_true hcond).1]
      rintro rfl
      exact hfirst hmem
    rw [(h.shard.symm.trans hbooked.shard).chargesIn_eq hfees] at hall
    refine ⟨s₀.fillsAfter log first (tips first) ++ replayed, ?_, fun symbolId => ?_⟩
    · simpa only [foldl_cons, streamToCaughtUp, chargesIn_append, append_assoc] using hall
    · rw [streamOf_append, hstreams, streamOf_fillsAfter]
      by_cases hsymbol : symbolId = first
      · subst hsymbol
        rw [if_pos rfl, if_neg hfirst, if_pos mem_cons_self, append_nil]
      · rw [if_neg hsymbol, nil_append]
        exact if_congr (by rw [mem_cons, or_iff_right hsymbol]) rfl rfl

def Covered (s₀ : Shard) (log : List MeRecord) (fills : List FillEvent) (tips : Nat → Nat) : Prop :=
  ∀ symbolId, streamOf FillEvent.symbolId symbolId fills =
    (s₀.fillsOf log).filter fun fill => fill.symbolId = symbolId ∧ fill.seq ≤ tips symbolId

theorem streamOf_fillsOf_eq (s₀ : Shard) (hlog : Ascending log) (symbolId tip : Nat) :
    ((s₀.fillsOf log).filter fun fill => fill.symbolId = symbolId ∧ fill.seq ≤ tip) ++
      s₀.fillsAfter log symbolId tip = streamOf FillEvent.symbolId symbolId (s₀.fillsOf log) := by
  have hstream : (streamOf FillEvent.symbolId symbolId (s₀.fillsOf log)).Pairwise
      fun a b => a.seq < b.seq := by
    refine List.Pairwise.imp_of_mem ?_ ((s₀.pairwise_fillsOf hlog).filter _)
    intro a b ha hb hlt
    exact hlt ((mem_streamOf.1 ha).2.trans (mem_streamOf.1 hb).2.symm)
  refine Eq.trans ?_ (filter_le_append_filter_lt FillEvent.seq tip hstream)
  unfold fillsAfter streamOf
  rw [filter_filter, filter_filter]
  congr 1 <;> apply filter_congr <;> intro fill _ <;> rw [Bool.decide_and, Bool.and_comm]

/-- **Warm catch-up.**  A shard with the fills up to its tips has all of them in the end. -/
theorem Booked.runWarmCatchup (h : s₀.Booked s fills charged) (hlog : Ascending log)
    (hcovered : s₀.Covered log fills s.tips) {streams : List Nat} (hnodup : streams.Nodup)
    (hstreams : ∀ record ∈ log, record.symbolId ∈ streams) :
    ∃ replayed, s₀.Booked (s.runWarmCatchup log streams) (fills ++ replayed)
        (fun userId => charged userId ++ s.chargesIn replayed userId) ∧
      ∀ symbolId, streamOf FillEvent.symbolId symbolId (fills ++ replayed) =
        streamOf FillEvent.symbolId symbolId (s₀.fillsOf log) := by
  obtain ⟨replayed, hbooked, hall⟩ := h.streams hlog s.tips hnodup fun _ _ => rfl
  refine ⟨replayed, hbooked, fun symbolId => ?_⟩
  rw [streamOf_append, hall, hcovered, ← s₀.streamOf_fillsOf_eq hlog symbolId (s.tips symbolId)]
  split_ifs with hmem
  · rfl
  · congr 1
    refine (filter_eq_nil_iff.2 fun fill hfill hcond => ?_).symm
    obtain ⟨⟨record, hrecord, hid⟩, _⟩ := mem_fillsOf.1 hfill
    have hsymbol := (of_decide_eq_true hcond).1
    rw [(MeRecord.fill?_ids hid).1] at hsymbol
    exact hmem (hsymbol ▸ hstreams record hrecord)

/-- The shard on an empty database. -/
def started (s₀ : Shard) : Shard :=
  (s₀.loaded {}).setPersistProducer

/-- `run_node` up to the catch-up: the tables are loaded, and then the configs that are active
now. -/
def restarted (s₀ : Shard) (db : Database) (configs : List SymbolRiskConfig) : Shard :=
  configs.foldl applySymbolConfig (s₀.loaded db)

def recovered (s₀ : Shard) (db : Database) (configs : List SymbolRiskConfig) (log : List MeRecord)
    (streams : List Nat) : Shard :=
  (s₀.restarted db configs).runWarmCatchup log streams

end Shard

/-! ## Crash consistency -/

end Rsx.Risk
