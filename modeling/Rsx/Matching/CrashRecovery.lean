import Rsx.Matching.Simulation

/-!
# What recovery brings back

A run of the engine, a checkpoint captured on the way or none, and the log that reached the disk:
the book that `recover` returns is the live one as far as orders, positions and keys go.  The runs
in which it is not follow the theorems.  -/

namespace Rsx.Matching

open Book Orderbook Cast List Engine CompressionMap MatchingCheckpoint

variable {e e' c : Engine} {r r' : Replay} {boot : BootConfig} {saved : Option MatchingCheckpoint}
  {dir : WalDir Record} {config : BookConfig} {capacity : Nat}
  {book : Orderbook} {orderIndex : OrderKey → Option Nat} {w : WalWriter}
  {actions after : List Action}

/-! ## Reading the log -/

theorem Replay.apply_lastSeq (r : Replay) (n : Nat) (record : Record) :
    Replay.apply { r with lastSeq := n } record =
      (r.apply record).map fun r' => { r' with lastSeq := n } := by
  cases record with
  | orderAccepted order =>
    show (r.book.processNewOrder order.toIncoming).bind _ =
      ((r.book.processNewOrder order.toIncoming).bind _).map _
    cases r.book.processNewOrder order.toIncoming <;> rfl
  | orderCancelled tsNs userId orderIdHi orderIdLo =>
    unfold Replay.apply
    cases h : r.orderIndex (userId, orderIdHi, orderIdLo) <;> simp [h]
  | fill | orderInserted | orderDone | orderFailed | bbo | configApplied => rfl

theorem run_apply_lastSeq (r : Replay) (n : Nat) (records : List Record) :
    run Replay.apply { r with lastSeq := n } records =
      (run Replay.apply r records).map fun r' => { r' with lastSeq := n } := by
  induction records generalizing r with
  | nil => rfl
  | cons record records ih =>
    rw [run, run, Replay.apply_lastSeq]
    cases r.apply record with
    | none => rfl
    | some r₁ => exact ih r₁

theorem run_replay_eq (r : Replay) (entries : List (Nat × Record)) :
    run Replay.step r entries = (run Replay.apply r (entries.map Prod.snd)).map fun r' =>
      { r' with lastSeq := (entries.map Prod.fst).foldl max r.lastSeq } := by
  induction entries generalizing r with
  | nil => rfl
  | cons entry entries ih =>
    rw [run, map_cons, map_cons, run, Replay.step, Replay.apply_lastSeq]
    cases r.apply entry.2 with
    | none => rfl
    | some r₁ =>
      show run Replay.step { r₁ with lastSeq := _ } entries = _
      rw [ih, run_apply_lastSeq, Option.map_map]
      rfl

theorem foldl_max_consecutive {l : List Nat} {n : Nat}
    (h : ∀ i x, l[i]? = some x → x = n + i + 1) : l.foldl max n = n + l.length := by
  induction l generalizing n with
  | nil => rfl
  | cons x l ih =>
    have hx : x = n + 1 := h 0 x rfl
    rw [foldl_cons, ih, length_cons]
    · omega
    · intro i y hy
      have := h (i + 1) y hy
      omega

theorem recover_of_replay {seq : Nat}
    (hload : loadBook boot saved = .ok (book, orderIndex, seq)) (hdir : dir.Numbered)
    (hseq : seq ≤ dir.records.length)
    (hreplay : run Replay.apply ⟨book, orderIndex, seq⟩
      ((dir.records.drop seq).map Prod.snd) = some r) (nowUnixNs bootNs : Nat) :
    ∃ dedup, recover boot saved dir nowUnixNs bootNs =
      some (.ok ⟨r.book, r.orderIndex, dedup, dir.records.length + 1, seq⟩) := by
  have hlast : ((dir.records.drop seq).map Prod.fst).foldl max seq = dir.records.length := by
    rw [foldl_max_consecutive, length_map, length_drop]
    · omega
    · intro i x hx
      rw [List.getElem?_map, List.getElem?_drop] at hx
      obtain ⟨_, hentry, rfl⟩ := Option.map_eq_some_iff.1 hx
      exact hdir.seq _ _ hentry
  have hread := hdir.readFrom (seq + 1)
  have hreadAll := hdir.readFrom 0
  unfold recover replayWalAfterSnapshot rebuildDedupWindow
  rw [hload]
  dsimp only
  rw [hread, hreadAll]
  dsimp only
  rw [Nat.add_sub_cancel, run_replay_eq, hreplay]
  rw [hlast]
  exact ⟨_, rfl⟩

/-! ## Live and recovered -/

/-- The recovered engine has the orders, the positions and the keys of the live one, and goes on
where its log ends. -/
structure Restores (e : Engine) (r : Recovered) : Prop where
  exchange : r.book.exchange.unstamped = e.book.exchange.unstamped
  net : ∀ u, r.book.users.netOf u = e.book.users.netOf u
  keys : ∀ key, (r.orderIndex key).isSome = (e.orderIndex key).isSome
  nextSeq : r.nextSeq = e.wal.lastSeq + 1

def WalWriter.Counted (w : WalWriter) : Prop :=
  w.nextSeq = w.records.length + 1

theorem WalWriter.Counted.lastSeq (hw : w.Counted) : w.lastSeq = w.records.length := by
  unfold WalWriter.lastSeq
  rw [hw, Nat.add_sub_cancel]

theorem WalWriter.Counted.appendAll (hw : w.Counted) (records : List Record) :
    (w.appendAll records).Counted ∧
      ((w.appendAll records).records.drop w.lastSeq).map Prod.snd = records ∧
      w.lastSeq ≤ (w.appendAll records).records.length := by
  obtain ⟨hseq, hrecords⟩ := w.appendAll_eq records
  have hlast := hw.lastSeq
  unfold Counted at hw ⊢
  rw [hrecords, hlast]
  refine ⟨?_, ?_, ?_⟩
  · simp
    omega
  · rw [drop_left, map_map]
    exact zipIdx_map_fst ..
  · simp

theorem Engine.run_wal (hrun : run step e actions = some e') :
    ∃ records, e'.wal = e.wal.appendAll records := by
  induction actions generalizing e with
  | nil =>
    cases hrun
    exact ⟨[], rfl⟩
  | cons a actions ih =>
    obtain ⟨_, hstep, hrest⟩ := Option.bind_eq_some_iff.1 hrun
    obtain ⟨records₁, hwal₁⟩ := step_wal hstep
    obtain ⟨records₂, hwal₂⟩ := ih hrest
    exact ⟨records₁ ++ records₂, by rw [hwal₂, hwal₁, WalWriter.appendAll_append]⟩

theorem numbered_take
    (hrun : run Engine.step (Engine.new config capacity) actions = some e) (k : Nat) :
    ({ active := some (e.wal.records.take k) } : WalDir Record).Numbered := by
  obtain ⟨records, hwal⟩ := Engine.run_wal hrun
  have hrecords : e.wal.records = (records.zipIdx 1).map Prod.swap := by
    rw [hwal]
    exact ((Engine.new config capacity).wal.appendAll_eq records).2
  refine ⟨fun p entry hentry => ?_, fun i segment hsegment => absurd hsegment (by simp), by
    simp [WalDir.files]⟩
  have htake : (e.wal.records.take k)[p]? = some entry := by
    simpa [WalDir.records, WalDir.files] using hentry
  rw [List.getElem?_take] at htake
  split at htake
  · rw [hrecords, List.getElem?_map, List.getElem?_zipIdx] at htake
    obtain ⟨_, hzip, rfl⟩ := Option.map_eq_some_iff.1 htake
    obtain ⟨_, -, rfl⟩ := Option.map_eq_some_iff.1 hzip
    exact Nat.add_comm 1 p
  · exact absurd htake (by simp)

theorem numbered_active (hrun : run step (new config capacity) actions = some e) :
    ({ active := some e.wal.records } : WalDir Record).Numbered := by
  have h := numbered_take hrun e.wal.records.length
  rwa [take_length] at h

theorem Mirrors.recover
    (hm : Mirrors c ⟨book, orderIndex, c.wal.lastSeq⟩) (hcounted : c.wal.Counted)
    (hplain : Along Engine.step Engine.Plain c after)
    (hwithin : Along Engine.step Engine.Within c after) (hrun : run Engine.step c after = some e)
    (hload : loadBook boot saved = .ok (book, orderIndex, c.wal.lastSeq))
    (hdir : dir.Numbered) (hrecords : dir.records = e.wal.records) (nowUnixNs bootNs : Nat) :
    ∃ r, recover boot saved dir nowUnixNs bootNs = some (.ok r) ∧ Restores e r ∧
      r.book.config = e.book.config := by
  obtain ⟨records, _, hwal, hreplay, hm', -, -⟩ := hm.follow hplain hwithin hrun
  obtain ⟨hcounted', hdrop, hle⟩ := hcounted.appendAll records
  rw [← hwal] at hcounted' hdrop hle
  rw [← hrecords] at hdrop hle
  obtain ⟨_, hrecover⟩ :=
    recover_of_replay hload hdir hle (hdrop.symm ▸ hreplay) nowUnixNs bootNs
  refine ⟨_, hrecover, ⟨hm'.alike.exchange.symm, fun u => (hm'.alike.net u).symm,
    fun key => ?_, ?_⟩, hm'.alike.config.symm⟩
  · exact Bool.eq_iff_iff.2 hm'.isSome_index
  · rw [hcounted'.lastSeq, hrecords]

theorem mirrors_new (hcap : capacity ≤ NONE)
    (hsized : WellSized bookInitialMidPrice config.tickSize)
    (hwide : (new bookInitialMidPrice config.tickSize).Wide) :
    Mirrors (new config capacity)
      ⟨Orderbook.new config capacity bookInitialMidPrice, fun _ => none, 0⟩ where
  live := trading_new hsized hwide hcap
  replay := trading_new hsized hwide hcap
  alike := ⟨rfl, fun _ => rfl, rfl, rfl⟩

theorem Trading.load (ht : Trading c.book c.orderIndex) (hlot : 0 < c.book.config.lotSize)
    (hsized : WellSized c.book.compression.midPrice c.book.config.tickSize)
    (hwide : (new c.book.compression.midPrice c.book.config.tickSize).Wide)
    {checkpoint : MatchingCheckpoint}
    (hcapture : MatchingCheckpoint.capture c.book c.wal.lastSeq = .ok checkpoint) :
    checkpoint.walSeq = c.wal.lastSeq ∧
    ∃ book orderIndex, loadBook ⟨config, c.book.orders.capacity⟩ (some checkpoint) =
        .ok (book, orderIndex, c.wal.lastSeq) ∧
      Mirrors c ⟨book, orderIndex, c.wal.lastSeq⟩ := by
  obtain ⟨_, book, hsnapshot, hrestore, htrading, halike⟩ := ht.restore hlot hsized hwide
  unfold MatchingCheckpoint.capture at hcapture
  rw [hsnapshot] at hcapture
  obtain rfl := Except.ok.inj hcapture
  refine ⟨rfl, book, rebuildOrderIndexFromBook book, ?_, ht, htrading, halike⟩
  unfold loadBook
  dsimp only
  rw [hrestore]

/-- Where the replay of a run starts: the engine that the checkpoint was captured from, or the empty
one. -/
structure Departs (boot : BootConfig) (saved : Option MatchingCheckpoint) (actions : List Action)
    (e start : Engine) (rest : List Action) (book : Orderbook)
    (orderIndex : OrderKey → Option Nat) : Prop where
  reached : ∃ done, actions = done ++ rest ∧
    run step (new boot.config boot.bookCapacity) done = some start
  follows : run step start rest = some e
  plain : Along step Plain start rest
  within : Along step Within start rest
  load : loadBook boot saved = .ok (book, orderIndex, start.wal.lastSeq)
  mirrors : Mirrors start ⟨book, orderIndex, start.wal.lastSeq⟩
  counted : start.wal.Counted
  net : ∀ u, start.book.users.netOf u = loggedPosition (start.wal.records.map Prod.snd) u
  covers : start.wal.lastSeq = saved.elim 0 walSeq

theorem exists_departs {before : List Action} (hcap : capacity ≤ NONE) (hlot : 0 < config.lotSize)
    (hsized : WellSized bookInitialMidPrice config.tickSize)
    (hwide : (new bookInitialMidPrice config.tickSize).Wide)
    (hplain : Along Engine.step Engine.Plain (Engine.new config capacity) (before ++ after))
    (hwithin : Along Engine.step Engine.Within (Engine.new config capacity) (before ++ after))
    (hbefore : run Engine.step (Engine.new config capacity) before = some c)
    (hafter : run Engine.step c after = some e)
    (hsaved : ∀ checkpoint ∈ saved, capture c.book c.wal.lastSeq = .ok checkpoint) :
    ∃ start rest book orderIndex,
      Departs ⟨config, capacity⟩ saved (before ++ after) e start rest book orderIndex := by
  have hm := mirrors_new hcap hsized hwide
  have hnew : (Engine.new config capacity).wal.Counted := rfl
  cases saved with
  | none =>
    exact ⟨Engine.new config capacity, before ++ after, _, _, ⟨[], rfl, rfl⟩,
      run_append_some hbefore hafter, hplain, hwithin, rfl, hm, hnew, fun u => rfl, rfl⟩
  | some checkpoint =>
    obtain ⟨hplain₁, hplain₂⟩ := hplain.of_append
    obtain ⟨hwithin₁, hwithin₂⟩ := hwithin.of_append
    obtain ⟨records, _, hwal, -, hm', hlasts, hnet⟩ := hm.follow hplain₁ hwithin₁ hbefore
    have hmap : WellSized c.book.compression.midPrice c.book.config.tickSize ∧
        c.book.compression.Wide :=
      run_invariant (I := fun c : Engine => WellSized c.book.compression.midPrice
          c.book.config.tickSize ∧ c.book.compression.Wide)
        (fun _ hok hstep => ⟨hok.2.2 _ hstep, hok.1.2 _ hstep⟩)
        ⟨hsized, hwide⟩ (hplain₁.and hwithin₁) hbefore
    have hcurrent : Current c.book := hlasts.current rfl
    have hconfig : c.book.config = config := hlasts.config
    have hcapacity : c.book.orders.capacity = capacity := hlasts.capacity
    obtain ⟨hseq, book, orderIndex, hload, hmirrors⟩ := hm'.live.load (hconfig.symm ▸ hlot)
      hmap.1 (hcurrent ▸ hmap.2) (hsaved checkpoint rfl)
    rw [hcapacity] at hload
    obtain ⟨hcounted, hdrop, -⟩ := hnew.appendAll records
    rw [← hwal] at hcounted hdrop
    refine ⟨c, after, book, orderIndex, ⟨before, rfl, hbefore⟩, hafter, hplain₂ c hbefore,
      hwithin₂ c hbefore, hload, hmirrors, hcounted, fun u => ?_, hseq.symm⟩
    rw [hnet u, show c.wal.records.map Prod.snd = records from hdrop]
    exact zero_add _

/-- **Recovery of the matching engine.**  Under one config, with no key accepted while it rests, few
enough orders and wide maps, and within the machine limits: whatever checkpoint was captured on the
way, recovery from the log as it stood after any later action gives the engine of that moment. -/
theorem recover_restores {before after : List Action} (hcap : capacity ≤ NONE)
    (hlot : 0 < config.lotSize)
    (hsized : CompressionMap.WellSized bookInitialMidPrice config.tickSize)
    (hwide : (CompressionMap.new bookInitialMidPrice config.tickSize).Wide)
    (hplain : Along Engine.step Engine.Plain (Engine.new config capacity) (before ++ after))
    (hwithin : Along Engine.step Engine.Within (Engine.new config capacity) (before ++ after))
    (hbefore : run Engine.step (Engine.new config capacity) before = some c)
    (hafter : run Engine.step c after = some e)
    (hsaved : ∀ checkpoint ∈ saved,
      MatchingCheckpoint.capture c.book c.wal.lastSeq = .ok checkpoint)
    (hdir : dir.Numbered) (hrecords : dir.records = e.wal.records) (nowUnixNs bootNs : Nat) :
    ∃ r, recover ⟨config, capacity⟩ saved dir nowUnixNs bootNs = some (.ok r) ∧ Restores e r := by
  obtain ⟨_, _, _, _, h⟩ :=
    exists_departs hcap hlot hsized hwide hplain hwithin hbefore hafter hsaved
  obtain ⟨r, hrecover, hrestores, -⟩ := h.mirrors.recover h.counted h.plain h.within h.follows
    h.load hdir hrecords nowUnixNs bootNs
  exact ⟨r, hrecover, hrestores⟩

/-- A checkpoint is captured on a recentered book; a resend, a fill, a cancel and the reclaim of an
idle user follow. -/
theorem recover_restores_checkpoint :
    let before : List Action := [.limit 1 1 1 0 54500 5, .limit 2 2 0 0 54000 3]
    let after : List Action := [.limit 1 1 1 0 54500 5, .limit 3 3 0 0 54500 2,
      .cancel { userId := 2, orderIdLo := 2 } 0, .maintainUsers 1]
    ∃ c e checkpoint r, run Engine.step (Engine.new ⟨1, 1, 1⟩ 8) before = some c ∧
      MatchingCheckpoint.capture c.book c.wal.lastSeq = .ok checkpoint ∧
      run Engine.step c after = some e ∧
      recover ⟨⟨1, 1, 1⟩, 8⟩ (some checkpoint) { active := some e.wal.records } 0 0 =
        some (.ok r) ∧ Restores e r := by
  intro before after
  -- one evaluation of the run serves the three facts
  have hall : (∃ c ∈ run Engine.step (Engine.new ⟨1, 1, 1⟩ 8) before, ∃ checkpoint,
      MatchingCheckpoint.capture c.book c.wal.lastSeq = .ok checkpoint ∧
        ∃ e ∈ run Engine.step c after, True) ∧
      Along Engine.step Engine.Plain (Engine.new ⟨1, 1, 1⟩ 8) (before ++ after) ∧
      Along Engine.step Engine.Within (Engine.new ⟨1, 1, 1⟩ 8) (before ++ after) := by
    decide +kernel
  obtain ⟨⟨c, hc, checkpoint, hcheckpoint, e, he, -⟩, hplain, hwithin⟩ := hall
  obtain ⟨r, hrecover, hrestores⟩ := recover_restores (by decide) (by decide)
    (by decide +kernel) (by decide +kernel) hplain hwithin hc he
    (fun _ h => Option.some.inj h ▸ hcheckpoint)
    (numbered_active (run_append_some hc he)) (by simp [WalDir.records, WalDir.files]) 0 0
  exact ⟨c, e, checkpoint, r, hc, hcheckpoint, he, hrecover, hrestores⟩

/-- The slots of the live map are counted in `u32`: around 429496729610000 zone 0 is cut down to
1000 slots, and the sells at 610600, 610700 and 611000 above share the last one.  The slot counts as
one price, so the buy takes the order that came first; the replay, on the map around 50000, takes
the best price. -/
theorem recover_fails_truncated :
    let actions : List Action :=
      [.limit 1 1 0 0 429496729609000 1, .limit 2 2 1 0 429496729611000 1,
        .limit 3 3 1 0 429496729610700 1, .limit 4 4 1 0 429496729610600 1,
        .limit 5 5 0 0 429496729611000 1]
    Along Engine.step Engine.Plain (Engine.new ⟨1, 1, 1⟩ 8) actions ∧
    ∃ e r, run Engine.step (Engine.new ⟨1, 1, 1⟩ 8) actions = some e ∧
      recover ⟨⟨1, 1, 1⟩, 8⟩ none { active := some e.wal.records } 0 0 = some (.ok r) ∧
      (e.book.exchange.orders .sell).map Resting.price = [429496729610600, 429496729610700] ∧
      (r.book.exchange.orders .sell).map Resting.price = [429496729610700, 429496729611000] := by
  simp only [exists_and_left]
  decide +kernel

/-- **Recovery under the config in force.**  Tick and lot size may change, but not after the
checkpoint was captured, or not at all without a checkpoint: with the config last applied, recovery
gives the engine of the moment the log ends. -/
theorem recover_keeps_config {before after : List Action} (hcap : capacity ≤ NONE)
    (hsized : CompressionMap.WellSized bookInitialMidPrice config.tickSize)
    (hwide : (CompressionMap.new bookInitialMidPrice config.tickSize).Wide)
    (htame : Along Engine.step Engine.Tame (Engine.new config capacity) before)
    (hbefore : run Engine.step (Engine.new config capacity) before = some c)
    (hlot : 0 < c.book.config.lotSize)
    (hsized' : CompressionMap.WellSized c.book.compression.midPrice c.book.config.tickSize)
    (hwide' : (CompressionMap.new c.book.compression.midPrice c.book.config.tickSize).Wide)
    (hplain : Along Engine.step Engine.Plain c after)
    (hwithin : Along Engine.step Engine.Within c after) (hafter : run Engine.step c after = some e)
    (hsaved : ∀ checkpoint ∈ saved,
      MatchingCheckpoint.capture c.book c.wal.lastSeq = .ok checkpoint)
    (hnone : saved = none → before = [])
    (hdir : dir.Numbered) (hrecords : dir.records = e.wal.records) (nowUnixNs bootNs : Nat) :
    ∃ r, recover ⟨e.book.config, capacity⟩ saved dir nowUnixNs bootNs = some (.ok r) ∧
      Restores e r ∧ r.book.config = e.book.config := by
  obtain ⟨ht, hcapacity⟩ := (trading_new hsized hwide hcap).follow htame hbefore
  have hcounted : c.wal.Counted := by
    obtain ⟨records, hwal⟩ := Engine.run_wal hbefore
    have hnew : (Engine.new config capacity).wal.Counted := rfl
    exact hwal ▸ (hnew.appendAll records).1
  cases saved with
  | none =>
    obtain rfl := hnone rfl
    cases hbefore
    have hm := mirrors_new hcap hsized hwide
    obtain ⟨-, -, -, -, -, hlasts, -⟩ := hm.follow hplain hwithin hafter
    have hload : loadBook ⟨e.book.config, capacity⟩ none = .ok
        (Orderbook.new config capacity bookInitialMidPrice, fun _ => none, 0) := by
      rw [hlasts.config]
      rfl
    exact hm.recover rfl hplain hwithin hafter hload hdir hrecords nowUnixNs bootNs
  | some checkpoint =>
    obtain ⟨-, _, _, hload, hmirrors⟩ :=
      ht.load hlot hsized' hwide' (hsaved checkpoint rfl)
    rw [hcapacity] at hload
    exact hmirrors.recover hcounted hplain hwithin hafter hload hdir hrecords nowUnixNs bootNs

/-- The lot size is doubled, a checkpoint is captured, and an order of the new size matches. -/
theorem recover_keeps_config_doubled :
    let before : List Action := [.limit 1 1 1 0 50100 4, .applyConfig ⟨1, 1, 2⟩ 0 2 0]
    let after : List Action := [.limit 2 2 0 0 50100 2]
    ∃ c e checkpoint r, run Engine.step (Engine.new ⟨1, 1, 1⟩ 8) before = some c ∧
      MatchingCheckpoint.capture c.book c.wal.lastSeq = .ok checkpoint ∧
      run Engine.step c after = some e ∧
      recover ⟨e.book.config, 8⟩ (some checkpoint) { active := some e.wal.records } 0 0 =
        some (.ok r) ∧ Restores e r ∧ r.book.config = e.book.config := by
  intro before after
  have hall : Along Engine.step Engine.Tame (Engine.new ⟨1, 1, 1⟩ 8) before ∧
      ∃ c ∈ run Engine.step (Engine.new ⟨1, 1, 1⟩ 8) before, (∃ checkpoint,
        MatchingCheckpoint.capture c.book c.wal.lastSeq = .ok checkpoint ∧
          ∃ e ∈ run Engine.step c after, True) ∧ 0 < c.book.config.lotSize ∧
        CompressionMap.WellSized c.book.compression.midPrice c.book.config.tickSize ∧
        (CompressionMap.new c.book.compression.midPrice c.book.config.tickSize).Wide ∧
        Along Engine.step Engine.Plain c after ∧ Along Engine.step Engine.Within c after := by
    decide +kernel
  obtain ⟨htame, c, hc, ⟨checkpoint, hcheckpoint, e, he, -⟩, hlot, hsized, hwide,
    hplain, hwithin⟩ :=
    hall
  obtain ⟨r, hr⟩ := recover_keeps_config (by decide) (by decide +kernel) (by decide +kernel)
    htame hc hlot hsized hwide hplain hwithin he (fun _ h => Option.some.inj h ▸ hcheckpoint)
    (fun h => absurd h (by simp)) (numbered_active (run_append_some hc he))
    (by simp [WalDir.records, WalDir.files]) 0 0
  exact ⟨c, e, checkpoint, r, hc, hcheckpoint, he, hr⟩

/-- An order of 3 rests when the lot size becomes 2.  The checkpoint that the change asks for is not
yet on the disk when the process ends; the replay tests the order against the new lot size and
drops it. -/
theorem recover_loses_config :
    let actions : List Action := [.limit 1 1 1 0 50100 3, .applyConfig ⟨1, 1, 2⟩ 0 2 0]
    ∃ e r, run Engine.step (Engine.new ⟨1, 1, 1⟩ 8) actions = some e ∧
      recover ⟨e.book.config, 8⟩ none { active := some e.wal.records } 0 0 = some (.ok r) ∧
      (e.book.exchange.orders .sell).map Resting.remainingQty = [3] ∧
      r.book.exchange.orders .sell = [] := by
  simp only [exists_and_left]
  decide +kernel

end Rsx.Matching
