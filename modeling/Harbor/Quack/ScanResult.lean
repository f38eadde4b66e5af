import Harbor.Quack.ScanRuns

set_option autoImplicit false

/-! # What a parallel scan returns

In every run the chunks of a scan come in the order of the stream and none comes twice. When the scan is
over without an error and nothing has disturbed its result, they are all of the stream, and the stream
had an end. What the rows are is another matter: the chunks of the PREPARE are projected on the client
when the query was given as text, and those fetched later are not.
-/

namespace Harbor.Quack.Scan

open Encoder (DataChunk)
open Runs KeyOrder

variable {n : Nat} {stream : List Fetched} {prepared : List ChunkResult}
  {batches : List (List ChunkResult)} {s t : State n} {i : Fin n}

/-! ## One step -/

/-- A FETCH of the scan is answered with an error, or finds no result, or fails on the result, or takes a
batch from it. -/
theorem step_serve_cases {pendingError : Option Bytes} {setting : Option UInt64}
    (h : step s (.serve i pendingError setting) = some t) :
    (s.threads i).phase = .requesting ∧
    ∃ response session,
      t = { s with
        session
        threads := Function.update s.threads i { s.threads i with phase := .responded response } } ∧
      (response.isError = true ∧ session = s.session ∨
        s.session.resultUuid = s.shared.resultUuid ∧
          (response = .fetchResponse [] none ∧ session = s.session ∧ s.session.duckdbQueryResult = none ∨
            (∃ fetches rest, s.session.duckdbQueryResult = some fetches ∧ response.isError = true ∧
              endsWell fetches = false ∧ (rest = none ∨ ∃ what, rest = some [.throws what]) ∧
              session = { s.session with duckdbQueryResult := rest }) ∨
            ∃ fetches maxChunks out rest, s.session.duckdbQueryResult = some fetches ∧
              setting = some maxChunks ∧ Takes fetches out rest ∧
              (rest = none ∨ out.length = maxChunks.toNat) ∧
              response = .fetchResponse out (some s.session.nextBatchIndex) ∧
              session = { s.session with
                duckdbQueryResult := rest
                nextBatchIndex := s.session.nextBatchIndex + 1 })) := by
  obtain ⟨hphase, rfl⟩ := step_serve h
  refine ⟨hphase, _, _, rfl, ?_⟩
  by_cases huuid : s.session.resultUuid = s.shared.resultUuid
  · obtain ⟨hnone, heq⟩ | ⟨fetches, response, -, herror, -, heq⟩ |
      ⟨fetches, maxChunks, response, rest, hfetches, herror, -, -, hends, hrest, heq⟩ |
      ⟨fetches, maxChunks, out, rest, hfetches, -, hsetting, htakes, hrest, heq⟩ :=
      s.session.fetch_cases s.shared.resultUuid pendingError setting huuid
    · rw [heq]
      exact Or.inr ⟨huuid, Or.inl ⟨rfl, rfl, hnone⟩⟩
    · rw [heq]
      exact Or.inl ⟨herror, rfl⟩
    · rw [heq]
      exact Or.inr ⟨huuid, Or.inr (Or.inl ⟨fetches, rest, hfetches, herror, hends, hrest, rfl⟩)⟩
    · rw [heq]
      exact Or.inr ⟨huuid, Or.inr (Or.inr ⟨fetches, maxChunks, out, rest, hfetches, hsetting, htakes,
        hrest.imp And.left And.right, rfl, rfl⟩)⟩
  · left
    unfold Session.fetch
    rw [if_pos huuid]
    exact ⟨rfl, rfl⟩

theorem Inv.serve_failure (hs : Inv stream prepared batches s)
    (hphase : (s.threads i).phase = .requesting) {response : Response} (herror : response.isError = true)
    (huuid : s.session.resultUuid = s.shared.resultUuid) {fetches : List Fetched}
    (hfetches : s.session.duckdbQueryResult = some fetches) (hends : endsWell fetches = false)
    {rest : Option (List Fetched)} (hrest : rest = none ∨ ∃ what, rest = some [.throws what]) :
    Inv stream prepared batches
      { s with
        session := { s.session with duckdbQueryResult := rest }
        threads := Function.update s.threads i { s.threads i with phase := .responded response } } := by
  obtain ⟨hindex, -, hcurrent, -⟩ := hs.current huuid fetches hfetches
  refine hs.serve_nothing hphase (Or.inl herror) fun _ left hleft => ⟨hindex, ?_⟩
  dsimp only at hleft
  subst hleft
  obtain hrest | ⟨what, hrest⟩ := hrest
  · cases hrest
  · -- the stream keeps throwing, and does not end well
    cases hrest
    refine ⟨?_, ?_, fun hwell => by cases hwell⟩
    · simpa [chunksOf] using hs.inStream
    · rw [← hcurrent, hends]
      rfl

/-- **One step.** The batches so far, or one more, account for all chunks after it. -/
theorem Inv.step (hs : Inv stream prepared batches s) {a : Action n} (h : step s a = some t) :
    ∃ batches', Inv stream prepared batches' t := by
  cases a with
  | initLocal i => exact ⟨batches, hs.initLocal h⟩
  | pop i => exact ⟨batches, hs.pop h⟩
  | check i => exact ⟨batches, hs.check h⟩
  | receive i => exact ⟨batches, hs.receive h⟩
  | prepare allowed sent uuid setting => exact ⟨batches, hs.prepare h⟩
  | serve i pendingError setting =>
      obtain ⟨hphase, response, session, rfl, ⟨herror, rfl⟩ | ⟨huuid, ⟨rfl, rfl, -⟩ |
        ⟨fetches, rest, hfetches, herror, hends, hrest, rfl⟩ |
        ⟨fetches, maxChunks, out, rest, hfetches, -, htakes, -, rfl, rfl⟩⟩⟩ := step_serve_cases h
      · exact ⟨batches, hs.serve_nothing hphase (Or.inl herror) hs.current⟩
      · exact ⟨batches, hs.serve_nothing hphase (Or.inr rfl) hs.current⟩
      · exact ⟨batches, hs.serve_failure hphase herror huuid hfetches hends hrest⟩
      · exact ⟨_, hs.serve_batch hphase huuid hfetches htakes⟩

/-! ## The start -/

theorem start_cases {tableName : Bytes} {columnIds : List ColumnIndex} {session : Session}
    {allowed : Bool} {sent : Sent} {uuid : Nat} {setting : Option UInt64}
    (h : start n tableName columnIds session allowed sent uuid setting = some s) :
    ∃ names fetches out needsMoreFetch rest, sent = .result names fetches ∧ Takes fetches out rest ∧
      (needsMoreFetch = false → rest = none) ∧
      s = ⟨⟨rest, 1, uuid⟩,
        ⟨columnIds, needsMoreFetch, uuid, out.map fun chunk =>
          ⟨chunk, if tableName ≠ [] then .pushdownAlreadyApplied else .requiresPushdown⟩⟩,
        fun _ => {}, []⟩ := by
  unfold start at h
  have herror : ∀ {response : Response} {after : Session}, response.isError = true →
      session.prepare allowed sent uuid setting ≠ (response, after) := by
    intro response after herror heq
    rw [heq] at h
    cases response with
    | errorResponse message => cases h
    | exception => cases h
    | prepareResponse resultUuid results needsMoreFetch => cases herror
    | fetchResponse results batchIndex => cases herror
  obtain ⟨response, hresponse, heq⟩ | ⟨response, hresponse, heq⟩ | ⟨response, rest, hresponse, heq⟩ |
    ⟨names, fetches, out, needsMoreFetch, rest, hsent, heq, htakes, hneeds⟩ :=
    session.prepare_cases allowed sent uuid setting
  · exact absurd heq (herror hresponse)
  · exact absurd heq (herror hresponse)
  · exact absurd heq (herror hresponse)
  · rw [heq] at h
    refine ⟨names, fetches, out, needsMoreFetch, rest, hsent, htakes, hneeds, ?_⟩
    rw [← Option.some.inj h, quackScanInitGlobal]
    by_cases hname : tableName ≠ []
    · simp only [if_pos hname]
    · simp only [if_neg hname]

/-- At the start the chunks of the PREPARE are the only batch. -/
theorem inv_start {tableName : Bytes} {columnIds : List ColumnIndex} {session : Session}
    {allowed : Bool} {names : List Bytes} {uuid : Nat} {setting : Option UInt64}
    (h : start n tableName columnIds session allowed (.result names stream) uuid setting = some s) :
    Inv stream s.shared.results [s.shared.results] s := by
  obtain ⟨_, fetches, out, needsMoreFetch, rest, hsent, htakes, -, rfl⟩ := start_cases h
  cases hsent
  have hchunks : chunksIn [out.map fun chunk => (⟨chunk,
      if tableName ≠ [] then .pushdownAlreadyApplied else .requiresPushdown⟩ : ChunkResult)] = out := by
    rw [chunksIn, List.flatten_singleton, List.map_map]
    exact List.map_id out
  constructor
  · exact ⟨[], rfl, fun batch hbatch => by cases hbatch⟩
  · rw [hchunks]
    exact isPrefix_of_takes htakes
  · intro _ left hleft
    dsimp only at hleft
    subst hleft
    rw [hchunks, htakes.1, htakes.2]
    exact ⟨rfl, List.prefix_rfl, rfl, fun _ => rfl⟩
  · intro k
    refine ⟨none, (fun e he => by cases he), ?_, ?_⟩
    · cases k with
      | zero => simp [State.holding]
      | succ k => simp [State.holding]
    · intro p hp
      cases p with
      | none => exact absurd rfl hp
      | some j => exact holding_fresh rfl k
  · intro j
    exact Nat.zero_lt_one
  · intro j _
    rfl
  · intro j hj
    rfl
  · intro j hj
    exact absurd rfl hj
  · intro j results index hj
    cases hj
  · exact List.Pairwise.nil
  · intro e he
    cases he

/-- The batches behind every state of a run. -/
theorem inv_run {tableName : Bytes} {columnIds : List ColumnIndex} {session : Session}
    {allowed : Bool} {names : List Bytes} {uuid : Nat} {setting : Option UInt64}
    (h : start n tableName columnIds session allowed (.result names stream) uuid setting = some s)
    {as : List (Action n)} (hrun : run step s as = some t) :
    ∃ batches, Inv stream s.shared.results batches t :=
  run_invariant (I := fun t => ∃ batches, Inv stream s.shared.results batches t)
    (fun _ _ _ ⟨_, hs⟩ _ hstep => hs.step hstep) ⟨_, inv_start h⟩ (meets_true _ _) hrun

/-! ## Order -/

theorem flatMap_getD (batches : List (List ChunkResult)) :
    ((List.range batches.length).flatMap fun k => batches.getD k []) = batches.flatten := by
  induction batches with
  | nil => rfl
  | cons batch batches ih =>
      rw [List.length_cons, List.range_succ_eq_map, List.flatMap_cons, List.flatMap_map]
      simp only [List.getD_cons_zero, List.getD_cons_succ]
      rw [ih, List.flatten_cons]

/-- The chunks in the order of their indexes, batch by batch. -/
theorem Inv.ordered_eq (hs : Inv stream prepared batches s) :
    s.ordered = (List.range batches.length).flatMap fun k => (valuesOf s.emitted k).map Prod.snd := by
  rw [State.ordered, inKeyOrder_eq fun e he => (hs.last e he).trans_lt (hs.below e.2.1),
    List.map_flatMap]

theorem Inv.ordered_sublist (hs : Inv stream prepared batches s) :
    (s.ordered.map ChunkResult.chunk).Sublist (chunksOf stream) := by
  have hbatches : s.ordered.Sublist batches.flatten := by
    rw [hs.ordered_eq, ← flatMap_getD]
    refine List.Sublist.flatMap_right _ fun k => ?_
    obtain ⟨o, ho⟩ := hs.owned k
    rw [← ho.whole]
    exact fun _ => List.sublist_append_left _ _
  exact (hbatches.map ChunkResult.chunk).trans hs.inStream.sublist

/-- **The order of a parallel scan.** In every run of a scan, by any number of threads and with any
other messages on its connection: what has been returned is in the order of its indexes a part of the
stream in the order of the stream, no two threads return under one index, and the indexes of a thread do
not decrease. -/
theorem scan_ordered {tableName : Bytes} {columnIds : List ColumnIndex} {session : Session}
    {allowed : Bool} {names : List Bytes} {uuid : Nat} {setting : Option UInt64}
    (hstart : start n tableName columnIds session allowed (.result names stream) uuid setting = some s)
    {as : List (Action n)} (hrun : run step s as = some t) :
    (t.ordered.map ChunkResult.chunk).Sublist (chunksOf stream) ∧
      (∀ a ∈ t.emitted, ∀ b ∈ t.emitted, a.1 = b.1 → a.2.1 = b.2.1) ∧
      t.emitted.Pairwise fun a b => a.2.1 = b.2.1 → a.1 ≤ b.1 := by
  obtain ⟨batches, ht⟩ := inv_run hstart hrun
  refine ⟨ht.ordered_sublist, fun a ha b hb hab => ?_, ht.ordered⟩
  obtain ⟨o, ho⟩ := ht.owned a.1
  have hmem : ∀ e ∈ t.emitted, e.1 = a.1 → some e.2.1 = o := by
    intro e he hindex
    refine ho.owner e.2 (List.mem_map.mpr ⟨e, List.mem_filter.mpr ⟨he, ?_⟩, rfl⟩)
    simpa using hindex
  exact Option.some.inj ((hmem a ha rfl).trans (hmem b hb hab.symm).symm)

/-- Three rows of a query in three chunks. -/
def threeChunks : List Fetched :=
  [.chunk [[.leaf (.scalar .bigint) (.int 1)]], .chunk [[.leaf (.scalar .bigint) (.int 2)]],
    .chunk [[.leaf (.scalar .bigint) (.int 3)]]]

/-- A scan of them by two threads, with one chunk for a response. -/
def threeChunksStart (tableName : Bytes) : Option (State 2) :=
  start 2 tableName [.primary 0] {} true (.result [lit "i"] threeChunks) 1 (some 1)

/-- The second chunk is fetched before the third one and returned after it. -/
def outOfOrder : List (Action 2) :=
  [.initLocal 0, .initLocal 1, .check 1, .serve 1 none (some 1), .pop 0, .check 0,
    .serve 0 none (some 1), .receive 0, .pop 0, .prepare false .throws 2 none, .receive 1, .pop 1,
    .check 0, .serve 0 none (some 1), .receive 0, .check 1]

theorem scan_ordered_threeChunks :
    let t := (run step ((threeChunksStart (lit "t")).get rfl) outOfOrder).get rfl
    (t.ordered.map ChunkResult.chunk).Sublist (chunksOf threeChunks) ∧
      (∀ a ∈ t.emitted, ∀ b ∈ t.emitted, a.1 = b.1 → a.2.1 = b.2.1) ∧
      t.emitted.Pairwise fun a b => a.2.1 = b.2.1 → a.1 ≤ b.1 := by
  intro t
  have hstart : threeChunksStart (lit "t") = some ((threeChunksStart (lit "t")).get rfl) :=
    (Option.some_get _).symm
  have hrun : run step ((threeChunksStart (lit "t")).get rfl) outOfOrder = some t := (Option.some_get _).symm
  exact scan_ordered hstart hrun

/-! ## Completeness -/

/-- The batches are all of the stream, and it ended well. -/
def Whole (stream : List Fetched) (batches : List (List ChunkResult)) : Prop :=
  chunksIn batches = chunksOf stream ∧ endsWell stream = true

/-- A thread of the scan has failed, or is about to. -/
def Failing (s : State n) : Prop :=
  ∃ i, (s.threads i).phase = .failed ∨
    ∃ response, (s.threads i).phase = .responded response ∧ response.isError = true

/-- What makes a thread stop holds only when everything is there, or there is an error elsewhere. -/
structure Settled (stream : List Fetched) (columnIds : List ColumnIndex)
    (batches : List (List ChunkResult)) (s : State n) : Prop where
  columns : s.shared.columnIds = columnIds
  absent : s.session.resultUuid = s.shared.resultUuid → s.session.duckdbQueryResult = none →
    Whole stream batches ∨ Failing s
  told : s.shared.needsMoreFetch = false → Whole stream batches ∨ Failing s
  answered : ∀ i index, (s.threads i).phase = .responded (.fetchResponse [] index) →
    Whole stream batches ∨ Failing s
  finished : ∀ i, (s.threads i).phase = .finished →
    (s.threads i).results = [] ∧ s.shared.needsMoreFetch = false

/-- One more batch of a whole stream is empty. -/
theorem Whole.append (h : Whole stream batches) {out : List DataChunk}
    (hstays : chunksIn batches ++ out <+: chunksOf stream) :
    Whole stream (batches ++ [out.map fetchedChunk]) := by
  refine ⟨?_, h.2⟩
  rw [chunksIn_append]
  refine hstays.eq_of_length (Nat.le_antisymm hstays.length_le ?_)
  rw [← h.1, List.length_append]
  exact Nat.le_add_right _ _

/-- A PREPARE that Undisturbed lets through leaves the session alone or has another uuid. -/
theorem prepare_undisturbed {session : Session} {allowed : Bool} {sent : Sent} {uuid : Nat}
    {setting : Option UInt64}
    (h : allowed = true → ∃ names fetches, sent = .result names fetches ∧ names ≠ []) :
    (session.prepare allowed sent uuid setting).2 = session ∨
      (session.prepare allowed sent uuid setting).2.resultUuid = uuid := by
  unfold Session.prepare
  by_cases hallowed : allowed = true
  · obtain ⟨names, fetches, rfl, hnames⟩ := h hallowed
    right
    rw [if_pos hallowed]
    dsimp only
    rw [if_neg hnames]
    cases setting with
    | none => rfl
    | some maxChunks =>
        dsimp only
        split <;> rfl
  · rw [if_neg hallowed]
    exact Or.inl rfl

/-- What a thread has is of the first batch or was fetched. -/
theorem Inv.pushdownType (hs : Inv stream prepared batches s) {o : Option (Fin n)} {k : Nat}
    {result : ChunkResult} (hresult : result ∈ s.holding o k) :
    result ∈ prepared ∨ result.pushdownType = .pushdownAlreadyApplied := by
  obtain ⟨p, hp⟩ := hs.owned k
  obtain rfl := hp.eq_of_holding (List.ne_nil_of_mem hresult)
  have hbatch : result ∈ batches.getD k [] := hp.whole ▸ List.mem_append_right _ hresult
  obtain ⟨later, rfl, happlied⟩ := hs.fromFetches
  cases k with
  | zero => exact Or.inl (by simpa using hbatch)
  | succ k =>
      rw [List.getD_cons_succ] at hbatch
      have hk : k < later.length := by
        by_contra hk
        rw [List.getD_eq_default _ _ (Nat.le_of_not_lt hk)] at hbatch
        cases hbatch
      rw [List.getD_eq_getElem _ _ hk] at hbatch
      exact Or.inr (happlied _ (List.getElem_mem hk) result hbatch)

/-- A chunk that nobody projects to nothing has rows in the output. -/
theorem output_ne_nil {columnIds : List ColumnIndex} {result : ChunkResult} (hne : result.chunk ≠ [])
    (hvisible : result.pushdownType = .requiresPushdown → .isVirtual ∉ columnIds) :
    result.output columnIds ≠ [] := by
  unfold ChunkResult.output
  cases htype : result.pushdownType with
  | pushdownAlreadyApplied => exact hne
  | requiresPushdown =>
      dsimp only
      rw [project, if_neg (hvisible htype)]
      simpa using hne

/-- A phase that an error does not follow from. -/
def Phase.harmless : Phase → Prop
  | .failed => False
  | .responded response => response.isError = false
  | _ => True

/-- A step of one thread: what it stops on has to be right. -/
theorem Settled.of_thread {columnIds : List ColumnIndex} {batches' : List (List ChunkResult)}
    (hsettled : Settled stream columnIds batches s) {thread : Thread}
    (hthreads : t.threads = Function.update s.threads i thread)
    (hcolumns : t.shared.columnIds = s.shared.columnIds)
    (hneeds : s.shared.needsMoreFetch = false → t.shared.needsMoreFetch = false)
    (hwhole : Whole stream batches → Whole stream batches')
    (hphase : (s.threads i).phase.harmless)
    (habsent : t.session.resultUuid = t.shared.resultUuid → t.session.duckdbQueryResult = none →
      (Whole stream batches ∨ Failing s) ∨ Whole stream batches' ∨ Failing t)
    (htold : t.shared.needsMoreFetch = false → Whole stream batches ∨ Failing s)
    (hanswered : ∀ index, thread.phase = .responded (.fetchResponse [] index) →
      (Whole stream batches ∨ Failing s) ∨ Whole stream batches' ∨ Failing t)
    (hfinished : thread.phase = .finished → thread.results = [] ∧ t.shared.needsMoreFetch = false) :
    Settled stream columnIds batches' t := by
  have hnext : Whole stream batches ∨ Failing s → Whole stream batches' ∨ Failing t := by
    refine Or.imp hwhole fun hfailing => ?_
    obtain ⟨j, hj⟩ := hfailing
    have hji : j ≠ i := by
      rintro rfl
      obtain hj | ⟨response, hj, herror⟩ := hj
      · rw [hj] at hphase
        exact hphase
      · rw [hj] at hphase
        exact Bool.false_ne_true (hphase.symm.trans herror)
    refine ⟨j, ?_⟩
    rw [hthreads, Function.update_of_ne hji]
    exact hj
  constructor
  · exact hcolumns.trans hsettled.columns
  · exact fun huuid hnone => (habsent huuid hnone).elim hnext id
  · exact fun h => hnext (htold h)
  · intro j index hj
    rw [hthreads] at hj
    by_cases hji : j = i
    · rw [hji, Function.update_self] at hj
      exact (hanswered index hj).elim hnext id
    · rw [Function.update_of_ne hji] at hj
      exact hnext (hsettled.answered j index hj)
  · intro j hj
    rw [hthreads] at hj ⊢
    by_cases hji : j = i
    · rw [hji, Function.update_self] at hj ⊢
      exact hfinished hj
    · rw [Function.update_of_ne hji] at hj ⊢
      exact ⟨(hsettled.finished j hj).1, hneeds (hsettled.finished j hj).2⟩

variable {columnIds : List ColumnIndex}

theorem settled_pop
    (hvisible : ∀ result ∈ prepared, result.pushdownType = .requiresPushdown → .isVirtual ∉ columnIds)
    (hs : Inv stream prepared batches s) (hsettled : Settled stream columnIds batches s)
    (h : step s (.pop i) = some t) : Settled stream columnIds batches t := by
  obtain ⟨result, results, hphase, hresults, hstep⟩ := step_pop h
  have hheld : result ∈ s.holding (some i) (s.threads i).partitionIndex := by
    simp [State.holding, Thread.holding, hphase, hresults, Phase.inFlight]
  have hne := hs.chunk_ne_nil hheld
  have hvis : result.pushdownType = .requiresPushdown → .isVirtual ∉ columnIds := by
    intro htype
    refine (hs.pushdownType hheld).elim (fun hmem => hvisible result hmem htype) fun happlied => ?_
    rw [htype] at happlied
    cases happlied
  obtain ⟨phase, hphase', hempty, rfl⟩ := hstep.resolve_left fun hempty => hne hempty.1
  -- the output has rows, so the thread goes on
  have hscanning : phase = .scanning := by
    refine hphase'.resolve_left fun hfinished => ?_
    have hnil := hempty hfinished
    rw [hsettled.columns] at hnil
    exact output_ne_nil hne hvis hnil
  subst hscanning
  refine hsettled.of_thread rfl rfl id id (by rw [hphase]; trivial) (fun huuid hnone => ?_)
    hsettled.told (fun index hanswer => by cases hanswer) fun hfinished => by cases hfinished
  exact Or.inl (hsettled.absent huuid hnone)

theorem settled_serve (hs : Inv stream prepared batches s)
    (hsettled : Settled stream columnIds batches s) {pendingError : Option Bytes}
    {setting : Option UInt64} (hok : setting ≠ some 0)
    (h : step s (.serve i pendingError setting) = some t) :
    ∃ batches', Inv stream prepared batches' t ∧ Settled stream columnIds batches' t := by
  obtain ⟨hphase, response, session, rfl, hcases⟩ := step_serve_cases h
  have hharmless : (s.threads i).phase.harmless := by
    rw [hphase]
    trivial
  have hfailing : response.isError = true → Failing
      { s with
        session
        threads := Function.update s.threads i { s.threads i with phase := .responded response } } := by
    intro herror
    refine ⟨i, Or.inr ⟨response, ?_, herror⟩⟩
    dsimp only
    rw [Function.update_self]
  obtain ⟨herror, rfl⟩ | ⟨huuid, ⟨rfl, rfl, hnone⟩ |
    ⟨fetches, rest, hfetches, herror, hends, hrest, rfl⟩ |
    ⟨fetches, maxChunks, out, rest, hfetches, hsetting, htakes, hrest, rfl, rfl⟩⟩ := hcases
  · refine ⟨batches, hs.serve_nothing hphase (Or.inl herror) hs.current,
      hsettled.of_thread rfl rfl id id hharmless (fun huuid hnone => ?_) hsettled.told
        (fun index hanswer => ?_) fun hfinished => by cases hfinished⟩
    · exact Or.inl (hsettled.absent huuid hnone)
    · exact Or.inr (Or.inr (hfailing herror))
  · -- no result: it is there no more because all of it was taken
    refine ⟨batches, hs.serve_nothing hphase (Or.inr rfl) hs.current,
      hsettled.of_thread rfl rfl id id hharmless (fun huuid hnone => ?_) hsettled.told
        (fun index hanswer => ?_) fun hfinished => by cases hfinished⟩
    · exact Or.inl (hsettled.absent huuid hnone)
    · exact Or.inl (hsettled.absent huuid hnone)
  · refine ⟨batches, hs.serve_failure hphase herror huuid hfetches hends hrest,
      hsettled.of_thread rfl rfl id id hharmless (fun _ _ => ?_) hsettled.told
        (fun index hanswer => ?_) fun hfinished => by cases hfinished⟩
    · exact Or.inr (Or.inr (hfailing herror))
    · exact Or.inr (Or.inr (hfailing herror))
  · obtain ⟨-, hstays, hends, hwhole⟩ := hs.current huuid fetches hfetches
    have htaken : chunksIn batches ++ out <+: chunksOf stream :=
      ((List.prefix_append_right_inj _).mpr (isPrefix_of_takes htakes)).trans hstays
    have hlast : rest = none → Whole stream (batches ++ [out.map fetchedChunk]) := by
      rintro rfl
      refine ⟨?_, hends ▸ htakes.2⟩
      rw [chunksIn_append, htakes.1]
      exact hwhole htakes.2
    refine ⟨_, hs.serve_batch hphase huuid hfetches htakes,
      hsettled.of_thread rfl rfl id (fun hw => hw.append htaken) hharmless (fun _ hnone => ?_)
        hsettled.told (fun index hanswer => ?_) fun hfinished => by cases hfinished⟩
    · exact Or.inr (Or.inl (hlast hnone))
    · -- a batch without chunks is the last one, unless the setting is 0
      cases hanswer
      refine Or.inr (Or.inl (hlast (hrest.resolve_right fun hlen => hok ?_)))
      rw [hsetting]
      exact congrArg some (UInt64.toNat_inj.mp hlen.symm)

/-- A thread that fails makes everything else a matter of no account. -/
theorem settled_failed (hsettled : Settled stream columnIds batches s) :
    Settled stream columnIds batches (s.setThread i { s.threads i with phase := .failed }) := by
  have hfailing : Failing (s.setThread i { s.threads i with phase := .failed }) := by
    refine ⟨i, Or.inl ?_⟩
    simp only [State.setThread, Function.update_self]
  refine ⟨hsettled.columns, fun _ _ => Or.inr hfailing, fun _ => Or.inr hfailing,
    fun _ _ _ => Or.inr hfailing, fun j hj => ?_⟩
  rw [State.setThread] at hj ⊢
  dsimp only at hj ⊢
  by_cases hji : j = i
  · rw [hji, Function.update_self] at hj
    cases hj
  · rw [Function.update_of_ne hji] at hj ⊢
    exact hsettled.finished j hj

theorem settled_receive (hs : Inv stream prepared batches s)
    (hsettled : Settled stream columnIds batches s) (h : step s (.receive i) = some t) :
    Settled stream columnIds batches t := by
  obtain ⟨response, hphase, rfl⟩ := step_receive h
  cases response with
  | errorResponse message => exact settled_failed hsettled
  | exception => exact settled_failed hsettled
  | prepareResponse uuid results needsMoreFetch => exact settled_failed hsettled
  | fetchResponse results batchIndex =>
      have hresults := hs.idle i (Or.inr ⟨_, hphase⟩)
      have hharmless : (s.threads i).phase.harmless := by
        rw [hphase]
        rfl
      cases results with
      | nil =>
          -- the answer was sent when there was nothing left
          have hsettle := hsettled.answered i batchIndex hphase
          refine hsettled.of_thread rfl rfl (fun _ => rfl) id hharmless (fun _ _ => Or.inl hsettle)
            (fun _ => hsettle) (fun index hanswer => by cases hanswer) fun _ => ⟨hresults, rfl⟩
      | cons chunk chunks =>
          refine hsettled.of_thread rfl rfl id id hharmless (fun huuid hnone => ?_) hsettled.told
            (fun index hanswer => by cases hanswer) fun hfinished => by cases hfinished
          exact Or.inl (hsettled.absent huuid hnone)

/-- **One step.** Whatever makes a thread stop is still right after it. -/
theorem settled_step
    (hvisible : ∀ result ∈ prepared, result.pushdownType = .requiresPushdown → .isVirtual ∉ columnIds)
    (hs : Inv stream prepared batches s) (hsettled : Settled stream columnIds batches s) {a : Action n}
    (hok : Undisturbed s a) (h : step s a = some t) :
    ∃ batches', Inv stream prepared batches' t ∧ Settled stream columnIds batches' t := by
  cases a with
  | initLocal i =>
      refine ⟨batches, hs.initLocal h, ?_⟩
      obtain ⟨hphase, rfl⟩ := step_initLocal h
      refine hsettled.of_thread rfl rfl id id (by rw [hphase]; trivial) (fun huuid hnone => ?_)
        hsettled.told (fun index hanswer => by cases hanswer) fun hfinished => by cases hfinished
      exact Or.inl (hsettled.absent huuid hnone)
  | pop i => exact ⟨batches, hs.pop h, settled_pop hvisible hs hsettled h⟩
  | check i =>
      refine ⟨batches, hs.check h, ?_⟩
      obtain ⟨hphase, hresults, ⟨-, rfl⟩ | ⟨htold, rfl⟩⟩ := step_check h
      · refine hsettled.of_thread rfl rfl id id (by rw [hphase]; trivial) (fun huuid hnone => ?_)
          hsettled.told (fun index hanswer => by cases hanswer) fun hfinished => by cases hfinished
        exact Or.inl (hsettled.absent huuid hnone)
      · refine hsettled.of_thread rfl rfl id id (by rw [hphase]; trivial) (fun huuid hnone => ?_)
          hsettled.told (fun index hanswer => by cases hanswer) fun _ => ⟨hresults, htold⟩
        exact Or.inl (hsettled.absent huuid hnone)
  | serve i pendingError setting => exact settled_serve hs hsettled hok h
  | receive i => exact ⟨batches, hs.receive h, settled_receive hs hsettled h⟩
  | prepare allowed sent uuid setting =>
      refine ⟨batches, hs.prepare h, ?_⟩
      obtain ⟨hne, rfl⟩ := step_prepare h
      refine ⟨hsettled.columns, fun huuid hnone => ?_, hsettled.told, hsettled.answered,
        hsettled.finished⟩
      obtain heq | heq := prepare_undisturbed hok
      · dsimp only at huuid hnone
        rw [heq] at huuid hnone
        exact hsettled.absent huuid hnone
      · exact absurd (heq.symm.trans huuid) hne

theorem settled_start {tableName : Bytes} {session : Session} {allowed : Bool} {names : List Bytes}
    {uuid : Nat} {setting : Option UInt64}
    (h : start n tableName columnIds session allowed (.result names stream) uuid setting = some s) :
    Settled stream columnIds [s.shared.results] s := by
  obtain ⟨_, fetches, out, needsMoreFetch, rest, hsent, htakes, hneeds, rfl⟩ := start_cases h
  cases hsent
  have hwhole : rest = none → Whole stream [out.map fun chunk => (⟨chunk,
      if tableName ≠ [] then .pushdownAlreadyApplied else .requiresPushdown⟩ : ChunkResult)] := by
    rintro rfl
    refine ⟨?_, htakes.2⟩
    rw [chunksIn, List.flatten_singleton, List.map_map]
    exact (List.map_id out).trans htakes.1
  exact ⟨rfl, fun _ hnone => Or.inl (hwhole hnone), fun htold => Or.inl (hwhole (hneeds htold)),
    (fun i index hi => by cases hi), fun i hi => by cases hi⟩

/-- The chunks of the PREPARE, and whether they are still to be projected. -/
theorem start_results {tableName : Bytes} {session : Session} {allowed : Bool} {sent : Sent}
    {uuid : Nat} {setting : Option UInt64}
    (h : start n tableName columnIds session allowed sent uuid setting = some s) :
    s.shared.columnIds = columnIds ∧ ∀ result ∈ s.shared.results, result.pushdownType =
      if tableName ≠ [] then .pushdownAlreadyApplied else .requiresPushdown := by
  obtain ⟨_, fetches, out, needsMoreFetch, rest, -, -, -, rfl⟩ := start_cases h
  refine ⟨rfl, fun result hresult => ?_⟩
  obtain ⟨chunk, -, rfl⟩ := List.mem_map.mp hresult
  rfl

/-- When the scan is over, nothing is held any more. -/
theorem Inv.ordered_of_done (hs : Inv stream prepared batches s)
    (hsettled : Settled stream columnIds batches s) (hdone : Done s) : s.ordered = batches.flatten := by
  obtain ⟨⟨i, hi⟩, hall⟩ := hdone
  have hnone : ∀ o k, s.holding o k = [] := by
    intro o k
    cases o with
    | none =>
        have htaken := hs.taken i (by rw [hi]; exact Phase.noConfusion)
        simp [State.holding, htaken]
    | some j =>
        obtain hj | hj := hall j
        · exact holding_fresh (hs.fresh j hj) k
        · rw [State.holding, Thread.holding, hj, (hsettled.finished j hj).1, ite_self]
          rfl
  rw [hs.ordered_eq, ← flatMap_getD]
  refine List.flatMap_congr fun k _ => ?_
  obtain ⟨o, ho⟩ := hs.owned k
  rw [← ho.whole, hnone, List.append_nil]

/-- All of the stream is there when the scan is over. -/
theorem whole_of_done (hsettled : Settled stream columnIds batches s) (hdone : Done s) :
    Whole stream batches := by
  obtain ⟨⟨i, hi⟩, hall⟩ := hdone
  refine (hsettled.told (hsettled.finished i hi).2).resolve_right ?_
  rintro ⟨j, hj⟩
  obtain hphase | hphase := hall j
  · obtain hj | ⟨response, hj, -⟩ := hj <;> cases hphase.symm.trans hj
  · obtain hj | ⟨response, hj, -⟩ := hj <;> cases hphase.symm.trans hj

/-- The batches at the end of an undisturbed run. -/
theorem settled_run {tableName : Bytes} {session : Session} {allowed : Bool} {names : List Bytes}
    {uuid : Nat} {setting : Option UInt64}
    (hstart : start n tableName columnIds session allowed (.result names stream) uuid setting = some s)
    (hcolumns : tableName ≠ [] ∨ .isVirtual ∉ columnIds)
    {as : List (Action n)} (hmeets : Meets step Undisturbed s as) (hrun : run step s as = some t) :
    ∃ batches, Inv stream s.shared.results batches t ∧ Settled stream columnIds batches t := by
  have hvisible : ∀ result ∈ s.shared.results, result.pushdownType = .requiresPushdown →
      .isVirtual ∉ columnIds := by
    intro result hresult htype
    refine hcolumns.resolve_left fun hname => ?_
    rw [(start_results hstart).2 result hresult, if_pos hname] at htype
    cases htype
  refine run_invariant
    (I := fun t => ∃ batches, Inv stream s.shared.results batches t ∧ Settled stream columnIds batches t)
    ?_ ⟨_, inv_start hstart, settled_start hstart⟩ hmeets hrun
  rintro _ _ _ ⟨_, hs, hsettled⟩ hok h
  exact settled_step hvisible hs hsettled hok h

theorem undisturbed_outOfOrder : ∀ a ∈ outOfOrder, ∀ s, Undisturbed s a := by
  intro a ha s
  simp only [outOfOrder, List.mem_cons, List.not_mem_nil, or_false] at ha
  obtain rfl | rfl | rfl | rfl | rfl | rfl | rfl | rfl | rfl | rfl | rfl | rfl | rfl | rfl | rfl | rfl := ha
  all_goals simp [Undisturbed]

/-- **A scan that is over has returned everything.** For any number of threads, any interleaving of them
and any other messages that leave its result alone: when all threads are finished, and none of them by
an error, the chunks in the order of their indexes are those of the stream, and the stream had an end. -/
theorem scan_complete {tableName : Bytes} {session : Session} {allowed : Bool} {names : List Bytes}
    {uuid : Nat} {setting : Option UInt64}
    (hstart : start n tableName columnIds session allowed (.result names stream) uuid setting = some s)
    (hcolumns : tableName ≠ [] ∨ .isVirtual ∉ columnIds)
    {as : List (Action n)} (hmeets : Meets step Undisturbed s as) (hrun : run step s as = some t)
    (hdone : Done t) :
    t.ordered.map ChunkResult.chunk = chunksOf stream ∧ endsWell stream = true := by
  obtain ⟨batches, ht, hsettled⟩ := settled_run hstart hcolumns hmeets hrun
  rw [ht.ordered_of_done hsettled hdone]
  exact whole_of_done hsettled hdone

theorem scan_complete_threeChunks :
    let t := (run step ((threeChunksStart (lit "t")).get rfl) outOfOrder).get rfl
    t.ordered.map ChunkResult.chunk = chunksOf threeChunks ∧ endsWell threeChunks = true := by
  intro t
  have hstart : threeChunksStart (lit "t") = some ((threeChunksStart (lit "t")).get rfl) :=
    (Option.some_get _).symm
  have hdone : Done t := ⟨⟨0, rfl⟩, Fin.forall_fin_two.mpr ⟨Or.inr rfl, Or.inr rfl⟩⟩
  exact scan_complete hstart (Or.inl (List.cons_ne_nil _ _)) (meets_of_forall_mem undisturbed_outOfOrder _)
    (Option.some_get _).symm hdone

/-- **What the rows of a query are.** The rows of a scan that is over are those of the projected columns
exactly when the projection does nothing to the chunks that did not come with the PREPARE. -/
theorem scan_projected_iff {session : Session} {allowed : Bool} {names : List Bytes}
    {uuid : Nat} {setting : Option UInt64}
    (hstart : start n [] columnIds session allowed (.result names stream) uuid setting = some s)
    (hcolumns : .isVirtual ∉ columnIds)
    {as : List (Action n)} (hmeets : Meets step Undisturbed s as) (hrun : run step s as = some t)
    (hdone : Done t) :
    t.rows = (chunksOf stream).map (project columnIds) ↔
      ∀ chunk ∈ (chunksOf stream).drop s.shared.results.length, project columnIds chunk = chunk := by
  obtain ⟨batches, ht, hsettled⟩ := settled_run hstart (Or.inr hcolumns) hmeets hrun
  obtain ⟨later, rfl, happlied⟩ := ht.fromFetches
  have hwhole := (whole_of_done hsettled hdone).1
  rw [chunksIn, List.flatten_cons, List.map_append] at hwhole
  have hfirst : s.shared.results.map (·.output columnIds) =
      (s.shared.results.map ChunkResult.chunk).map (project columnIds) := by
    rw [List.map_map]
    refine List.map_congr_left fun result hresult => ?_
    have htype := (start_results hstart).2 result hresult
    simp only [ne_eq, not_true_eq_false, if_false] at htype
    simp [ChunkResult.output, htype]
  have hlater : later.flatten.map (·.output columnIds) = later.flatten.map ChunkResult.chunk := by
    refine List.map_congr_left fun result hresult => ?_
    obtain ⟨batch, hbatch, hresult⟩ := List.mem_flatten.mp hresult
    simp [ChunkResult.output, happlied batch hbatch result hresult]
  have hdrop : (chunksOf stream).drop s.shared.results.length = later.flatten.map ChunkResult.chunk := by
    rw [← hwhole, List.drop_append_of_le_length (by simp), List.drop_eq_nil_of_le (by simp),
      List.nil_append]
  rw [State.rows, hsettled.columns, ht.ordered_of_done hsettled hdone, List.flatten_cons, List.map_append,
    hfirst, hlater, ← hwhole, List.map_append, List.append_cancel_left_eq, hwhole, hdrop]
  constructor
  · intro heq chunk hchunk
    obtain ⟨result, hresult, rfl⟩ := List.mem_map.mp hchunk
    rw [List.map_map] at heq
    exact ((List.map_inj_left.mp heq) result hresult).symm
  · intro hall
    exact ((List.map_congr_left hall).trans (List.map_id _)).symm

theorem scan_projected_threeChunks :
    let s := (threeChunksStart []).get rfl
    let t := (run step s outOfOrder).get rfl
    t.rows = (chunksOf threeChunks).map (project [.primary 0]) ↔
      ∀ chunk ∈ (chunksOf threeChunks).drop s.shared.results.length,
        project [.primary 0] chunk = chunk := by
  intro s t
  have hstart : threeChunksStart [] = some s := (Option.some_get _).symm
  have hdone : Done t := ⟨⟨0, rfl⟩, Fin.forall_fin_two.mpr ⟨Or.inr rfl, Or.inr rfl⟩⟩
  exact scan_projected_iff hstart (by decide) (meets_of_forall_mem undisturbed_outOfOrder _)
    (Option.some_get _).symm hdone

end Harbor.Quack.Scan
