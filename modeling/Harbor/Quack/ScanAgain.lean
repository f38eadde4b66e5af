import Harbor.Quack.ScanResult

set_option autoImplicit false

/-! # The same scan a second time

A prepared statement that is executed again, or a step of a recursive query, initialises its scans again
from the bind data there is. For a query (`quack_query`, `quack_query_by_name`) that is the answer to the
one `PREPARE_REQUEST` of the binding: its chunks are still there, but the rest of the result was taken
from the server by the first scan, and the server answers a fetch of what is gone as it answers one of
what is finished. So the second scan ends well, with the chunks of the PREPARE only.
-/

namespace Harbor.Quack.Scan

open Encoder (DataChunk)
open Runs KeyOrder

variable {n m : Nat} {stream : List Fetched} {columnIds : List ColumnIndex} {s t : State n} {i : Fin n}

/-- `QuackScanInitGlobal` once more, of the bind data of the query that `s` is the start of. -/
def State.again (s : State n) (m : Nat) (session : Session) : State m where
  session
  shared := quackScanInitGlobal
    ⟨[], s.shared.results.map ChunkResult.chunk, s.shared.needsMoreFetch, s.shared.resultUuid⟩
    s.shared.columnIds ⟨[], false, 0⟩
  threads _ := {}

/-! ## What the first scan leaves -/

/-- Whoever was told that there is no more was told so by an exhausted result, and it stays exhausted. -/
def Spent (s : State n) : Prop :=
  (s.shared.needsMoreFetch = false ∨
    ∃ i index, (s.threads i).phase = .responded (.fetchResponse [] index)) →
  s.session.resultUuid = s.shared.resultUuid → s.session.duckdbQueryResult = none

/-- A step of one thread that leaves the session and is told nothing. -/
theorem Spent.of_thread (hs : Spent s) {thread : Thread}
    (hthreads : t.threads = Function.update s.threads i thread) (hsession : t.session = s.session)
    (huuid : t.shared.resultUuid = s.shared.resultUuid)
    (htold : t.shared.needsMoreFetch = false → s.shared.needsMoreFetch = false ∨
      ∃ index, (s.threads i).phase = .responded (.fetchResponse [] index))
    (hphase : ∀ index, thread.phase ≠ .responded (.fetchResponse [] index)) : Spent t := by
  intro hwhy
  rw [hsession, huuid]
  refine hs ?_
  obtain htold' | ⟨j, index, hj⟩ := hwhy
  · exact (htold htold').imp id fun ⟨index, h⟩ => ⟨i, index, h⟩
  · rw [hthreads] at hj
    by_cases hji : j = i
    · rw [hji, Function.update_self] at hj
      exact absurd hj (hphase index)
    · rw [Function.update_of_ne hji] at hj
      exact Or.inr ⟨j, index, hj⟩

/-- A FETCH that is answered without chunks has found the result exhausted, or has exhausted it. -/
theorem spent_serve (hs : Spent s) {pendingError : Option Bytes} {setting : Option UInt64}
    (hok : setting ≠ some 0) (h : step s (.serve i pendingError setting) = some t) : Spent t := by
  obtain ⟨hphase, response, session, rfl, hcases⟩ := step_serve_cases h
  -- before the answer the others may have been told already
  have hothers : ∀ {P : Prop}, ((∃ index, response = .fetchResponse [] index) → P) →
      ((s.shared.needsMoreFetch = false ∨
        ∃ j index, (s.threads j).phase = .responded (.fetchResponse [] index)) → P) →
      (s.shared.needsMoreFetch = false ∨ ∃ j index,
        (Function.update s.threads i { s.threads i with phase := .responded response } j).phase =
          .responded (.fetchResponse [] index)) → P := by
    intro P hnew hold hwhy
    obtain htold | ⟨j, index, hj⟩ := hwhy
    · exact hold (Or.inl htold)
    · by_cases hji : j = i
      · rw [hji, Function.update_self] at hj
        exact hnew ⟨index, Phase.responded.inj hj⟩
      · rw [Function.update_of_ne hji] at hj
        exact hold (Or.inr ⟨j, index, hj⟩)
  obtain ⟨herror, rfl⟩ | ⟨huuid, ⟨rfl, rfl, hnone⟩ |
    ⟨fetches, rest, hfetches, herror, hends, hrest, rfl⟩ |
    ⟨fetches, maxChunks, out, rest, hfetches, hsetting, htakes, hrest, rfl, rfl⟩⟩ := hcases
  · refine hothers (fun ⟨index, h⟩ => ?_) hs
    rw [h] at herror
    cases herror
  · exact fun _ _ => hnone
  · refine hothers (fun ⟨index, h⟩ => ?_) fun hwhy => ?_
    · rw [h] at herror
      cases herror
    · have hnone := hs hwhy huuid
      rw [hfetches] at hnone
      cases hnone
  · refine hothers (fun ⟨index, h⟩ _ => ?_) fun hwhy => ?_
    · -- a batch without chunks is the last one, unless the setting is 0
      cases h
      refine hrest.resolve_right fun hlen => hok ?_
      rw [hsetting]
      exact congrArg some (UInt64.toNat_inj.mp hlen.symm)
    · have hnone := hs hwhy huuid
      rw [hfetches] at hnone
      cases hnone

theorem spent_step (hs : Spent s) {a : Action n} (hok : Undisturbed s a) (h : step s a = some t) :
    Spent t := by
  cases a with
  | initLocal i =>
      obtain ⟨-, rfl⟩ := step_initLocal h
      exact hs.of_thread rfl rfl rfl Or.inl fun _ => Phase.noConfusion
  | pop i =>
      obtain ⟨result, results, hphase, -, hstep⟩ := step_pop h
      obtain ⟨-, rfl⟩ | ⟨phase, hphase', -, rfl⟩ := hstep
      · -- the chunk is empty, and the phase stays
        exact hs.of_thread rfl rfl rfl Or.inl fun _ heq => by
          rw [hphase] at heq
          cases heq
      · exact hs.of_thread rfl rfl rfl Or.inl fun _ heq => by
          obtain rfl | rfl := hphase' <;> cases heq
  | check i =>
      obtain ⟨-, -, ⟨-, rfl⟩ | ⟨-, rfl⟩⟩ := step_check h
      · exact hs.of_thread rfl rfl rfl Or.inl fun _ => Phase.noConfusion
      · exact hs.of_thread rfl rfl rfl Or.inl fun _ => Phase.noConfusion
  | serve i pendingError setting => exact spent_serve hs hok h
  | receive i =>
      obtain ⟨response, hphase, rfl⟩ := step_receive h
      cases response with
      | errorResponse message => exact hs.of_thread rfl rfl rfl Or.inl fun _ => Phase.noConfusion
      | exception => exact hs.of_thread rfl rfl rfl Or.inl fun _ => Phase.noConfusion
      | prepareResponse uuid results needsMoreFetch =>
          exact hs.of_thread rfl rfl rfl Or.inl fun _ => Phase.noConfusion
      | fetchResponse results batchIndex =>
          cases results with
          | nil => exact hs.of_thread rfl rfl rfl (fun _ => Or.inr ⟨_, hphase⟩) fun _ => Phase.noConfusion
          | cons chunk chunks => exact hs.of_thread rfl rfl rfl Or.inl fun _ => Phase.noConfusion
  | prepare allowed sent uuid setting =>
      obtain ⟨hne, rfl⟩ := step_prepare h
      intro hwhy huuid
      obtain ⟨hcurrent, heq | heq⟩ := prepare_current hne huuid
      · dsimp only
        rw [heq]
        exact hs hwhy hcurrent
      · dsimp only
        rw [heq]

theorem spent_start {tableName : Bytes} {session : Session} {allowed : Bool} {sent : Sent} {uuid : Nat}
    {setting : Option UInt64}
    (h : start n tableName columnIds session allowed sent uuid setting = some s) : Spent s := by
  obtain ⟨_, fetches, out, needsMoreFetch, rest, -, -, hneeds, rfl⟩ := start_cases h
  rintro (htold | ⟨i, index, hi⟩) -
  · exact hneeds htold
  · cases hi

/-- A scan that is over has left nothing on the server. -/
theorem spent_of_done {columnIds : List ColumnIndex} {batches : List (List ChunkResult)} (hs : Spent s)
    (hsettled : Settled stream columnIds batches s) (hdone : Done s) :
    s.session.resultUuid = s.shared.resultUuid → s.session.duckdbQueryResult = none := by
  obtain ⟨⟨i, hi⟩, -⟩ := hdone
  exact hs (Or.inl (hsettled.finished i hi).2)

/-! ## The second scan -/

/-- What the second scan takes for the stream: the chunks of the PREPARE, and then the end. -/
def preparedStream (prepared : List ChunkResult) : List Fetched :=
  prepared.map fun result => .chunk result.chunk

theorem chunksOf_preparedStream {prepared : List ChunkResult}
    (hne : ∀ result ∈ prepared, result.chunk ≠ []) :
    chunksOf (preparedStream prepared) = prepared.map ChunkResult.chunk ∧
      endsWell (preparedStream prepared) = true := by
  induction prepared with
  | nil => exact ⟨rfl, rfl⟩
  | cons result prepared ih =>
      obtain ⟨hchunks, hends⟩ := ih fun r hr => hne r (List.mem_cons_of_mem _ hr)
      have hchunk := hne result List.mem_cons_self
      obtain ⟨chunk, pushdownType⟩ := result
      cases chunk with
      | nil => exact absurd rfl hchunk
      | cons row rows => exact ⟨congrArg (List.cons (row :: rows)) hchunks, hends⟩

/-- The second scan begins as one of that stream. -/
theorem inv_again {prepared : List ChunkResult} (hne : ∀ result ∈ prepared, result.chunk ≠ [])
    {u : State m} (hthreads : u.threads = fun _ => {}) (hemitted : u.emitted = [])
    (hresults : u.shared.results = prepared)
    (hnone : u.session.resultUuid = u.shared.resultUuid → u.session.duckdbQueryResult = none) :
    Inv (preparedStream prepared) prepared [prepared] u ∧
      Settled (preparedStream prepared) u.shared.columnIds [prepared] u := by
  obtain ⟨hchunks, hends⟩ := chunksOf_preparedStream hne
  have hwhole : Whole (preparedStream prepared) [prepared] := by
    refine ⟨?_, hends⟩
    rw [chunksIn, List.flatten_singleton, hchunks]
  have hphase : ∀ i, (u.threads i).phase = .created := fun i => by rw [hthreads]
  constructor
  · constructor
    · exact ⟨[], rfl, fun batch hbatch => by cases hbatch⟩
    · exact hwhole.1 ▸ List.prefix_rfl
    · intro huuid rest hrest
      rw [hnone huuid] at hrest
      cases hrest
    · intro k
      refine ⟨none, ?_, ?_, ?_⟩
      · rw [hemitted]
        exact fun e he => by cases he
      · rw [hemitted]
        cases k <;> simp [State.holding, hresults]
      · intro p hp
        cases p with
        | none => exact absurd rfl hp
        | some j => exact holding_fresh (congrFun hthreads j) k
    · intro j
      rw [hthreads]
      exact Nat.zero_lt_one
    · exact fun j _ => congrFun hthreads j
    · intro j _
      rw [hthreads]
    · exact fun j hj => absurd (hphase j) hj
    · intro j results index hj
      cases (hphase j).symm.trans hj
    · rw [hemitted]
      exact List.Pairwise.nil
    · rw [hemitted]
      exact fun e he => by cases he
  · refine ⟨rfl, fun _ _ => Or.inl hwhole, fun _ => Or.inl hwhole, fun i index hi => ?_, fun i hi => ?_⟩
    · cases (hphase i).symm.trans hi
    · cases (hphase i).symm.trans hi

/-- What an order-preserving consumer gets of a scan that is over begins with the chunks of the PREPARE. -/
theorem ordered_eq_append {prepared : List ChunkResult} {batches : List (List ChunkResult)}
    (hs : Inv stream prepared batches s) (hsettled : Settled stream columnIds batches s) (hdone : Done s) :
    ∃ later, s.ordered = prepared ++ later ∧ (prepared ++ later).map ChunkResult.chunk = chunksOf stream := by
  obtain ⟨later, rfl, -⟩ := hs.fromFetches
  refine ⟨later.flatten, hs.ordered_of_done hsettled hdone, ?_⟩
  rw [← (whole_of_done hsettled hdone).1, chunksIn, List.flatten_cons]

theorem step_resultUuid {a : Action n} (h : step s a = some t) :
    t.shared.resultUuid = s.shared.resultUuid := by
  cases a with
  | initLocal i =>
      obtain ⟨-, rfl⟩ := step_initLocal h
      rfl
  | pop i =>
      obtain ⟨_, _, -, -, ⟨-, rfl⟩ | ⟨_, -, -, rfl⟩⟩ := step_pop h
      · rfl
      · rfl
  | check i =>
      obtain ⟨-, -, ⟨-, rfl⟩ | ⟨-, rfl⟩⟩ := step_check h
      · rfl
      · rfl
  | serve i pendingError setting =>
      obtain ⟨-, rfl⟩ := step_serve h
      rfl
  | receive i =>
      obtain ⟨response, -, rfl⟩ := step_receive h
      cases response with
      | fetchResponse results batchIndex => cases results <;> rfl
      | _ => rfl
  | prepare allowed sent uuid setting =>
      obtain ⟨-, rfl⟩ := step_prepare h
      rfl

theorem spent_run {tableName : Bytes} {session : Session} {allowed : Bool} {sent : Sent} {uuid : Nat}
    {setting : Option UInt64}
    (hstart : start n tableName columnIds session allowed sent uuid setting = some s)
    {as : List (Action n)} (hmeets : Meets step Undisturbed s as) (hrun : run step s as = some t) :
    Spent t ∧ t.shared.resultUuid = s.shared.resultUuid := by
  refine run_invariant (I := fun t => Spent t ∧ t.shared.resultUuid = s.shared.resultUuid) ?_
    ⟨spent_start hstart, rfl⟩ hmeets hrun
  rintro _ _ _ ⟨hs, huuid⟩ hok h
  exact ⟨spent_step hs hok h, (step_resultUuid h).trans huuid⟩

/-- The second scan has the same global state at its start. -/
theorem again_shared {session session' : Session} {allowed : Bool} {sent : Sent} {uuid : Nat}
    {setting : Option UInt64}
    (hstart : start n [] columnIds session allowed sent uuid setting = some s) :
    (s.again m session').shared = s.shared := by
  obtain ⟨names, fetches, out, needsMoreFetch, rest, -, -, -, rfl⟩ := start_cases hstart
  simp [State.again, quackScanInitGlobal]

/-- **A second scan of the same bind data.** When a scan of a query is over and has returned everything, a
scan that is initialised again from the same bind data, and is over without an error, has returned the
chunks that came with the PREPARE and no others: it returns the rows of the first one only if nothing was
ever fetched. -/
theorem scan_again {session : Session} {allowed : Bool} {names : List Bytes} {uuid : Nat}
    {setting : Option UInt64} {u : State m}
    (hstart : start n [] columnIds session allowed (.result names stream) uuid setting = some s)
    (hcolumns : .isVirtual ∉ columnIds)
    {as : List (Action n)} (hmeets : Meets step Undisturbed s as) (hrun : run step s as = some t)
    (hdone : Done t) {bs : List (Action m)} (hmeets' : Meets step Undisturbed (s.again m t.session) bs)
    (hrun' : run step (s.again m t.session) bs = some u) (hdone' : Done u) :
    u.ordered.map ChunkResult.chunk = (chunksOf stream).take s.shared.results.length ∧
      (u.rows = t.rows ↔ (chunksOf stream).length = s.shared.results.length) := by
  obtain ⟨batches, ht, hsettled⟩ := settled_run hstart (Or.inr hcolumns) hmeets hrun
  obtain ⟨hids, hpushdown⟩ := start_results hstart
  -- the first scan is over: its chunks begin with those of the PREPARE, and nothing is left on the server
  obtain ⟨hspent, huuid⟩ := spent_run hstart hmeets hrun
  have hnone := spent_of_done hspent hsettled hdone
  rw [huuid] at hnone
  obtain ⟨later, hfirst, hchunks⟩ := ordered_eq_append ht hsettled hdone
  -- the second scan is one of the chunks of the PREPARE alone
  have hshared : (s.again m t.session).shared = s.shared := again_shared hstart
  have hne : ∀ result ∈ s.shared.results, result.chunk ≠ [] := fun result hresult =>
    (inv_start hstart).chunk_ne_nil (o := none) (k := 0) hresult
  obtain ⟨hinv, hsettled'⟩ := inv_again (u := s.again m t.session) hne rfl rfl
    (congrArg GlobalState.results hshared) (by rw [hshared]; exact hnone)
  rw [hshared, hids] at hsettled'
  obtain ⟨batches', hu, husettled⟩ := run_invariant
    (I := fun u => ∃ batches, Inv (preparedStream s.shared.results) s.shared.results batches u ∧
      Settled (preparedStream s.shared.results) columnIds batches u)
    (fun _ _ _ ⟨_, hs, hsettled⟩ hok h =>
      settled_step (fun _ _ _ => hcolumns) hs hsettled hok h) ⟨_, hinv, hsettled'⟩ hmeets' hrun'
  obtain ⟨later', hsecond, hchunks'⟩ := ordered_eq_append hu husettled hdone'
  have hnil : later' = [] := by
    have hlength := congrArg List.length (hchunks'.trans (chunksOf_preparedStream hne).1)
    rw [List.length_map, List.length_map, List.length_append] at hlength
    exact List.eq_nil_of_length_eq_zero (by omega)
  rw [hnil, List.append_nil] at hsecond
  have hlength : (chunksOf stream).length = s.shared.results.length + later.length := by
    rw [← hchunks, List.length_map, List.length_append]
  constructor
  · rw [hsecond, ← hchunks, List.map_append, List.take_append_of_le_length (by simp),
      List.take_of_length_le (by simp)]
  · rw [State.rows, State.rows, hsecond, hfirst, husettled.columns, hsettled.columns, hlength]
    constructor
    · intro heq
      have hlen := congrArg List.length heq
      simpa using hlen
    · intro heq
      have hnil : later = [] := List.eq_nil_of_length_eq_zero (by omega)
      rw [hnil, List.append_nil]

/-- One thread scans what is there, and asks once for more. -/
def secondTime : List (Action 1) :=
  [.initLocal 0, .pop 0, .check 0, .serve 0 none (some 1), .receive 0]

theorem scan_again_threeChunks :
    let s := (threeChunksStart []).get rfl
    let t := (run step s outOfOrder).get rfl
    let u := (run step (s.again 1 t.session) secondTime).get rfl
    u.ordered.map ChunkResult.chunk = (chunksOf threeChunks).take s.shared.results.length ∧
      (u.rows = t.rows ↔ (chunksOf threeChunks).length = s.shared.results.length) := by
  intro s t u
  have hstart : threeChunksStart [] = some s := (Option.some_get _).symm
  have hrun : run step s outOfOrder = some t := (Option.some_get _).symm
  have hrun' : run step (s.again 1 t.session) secondTime = some u := (Option.some_get _).symm
  have hdone : Done t := ⟨⟨0, rfl⟩, Fin.forall_fin_two.mpr ⟨Or.inr rfl, Or.inr rfl⟩⟩
  have hdone' : Done u := ⟨⟨0, rfl⟩, Fin.forall_fin_one.mpr (Or.inr rfl)⟩
  have hundisturbed : ∀ a ∈ secondTime, ∀ s, Undisturbed s a := by
    intro a ha s
    simp only [secondTime, List.mem_cons, List.not_mem_nil, or_false] at ha
    obtain rfl | rfl | rfl | rfl | rfl := ha
    all_goals simp [Undisturbed]
  exact scan_again hstart (by decide) (meets_of_forall_mem undisturbed_outOfOrder _) hrun hdone
    (meets_of_forall_mem hundisturbed _) hrun' hdone'

end Harbor.Quack.Scan
