import Mathlib.Data.List.GetD
import Harbor.Quack.Scan

set_option autoImplicit false

/-! # Where the chunks of a parallel scan are

The batches the server has handed out so far (the first one is that of the PREPARE) are the beginning of
the stream, and every chunk of them is in one place: returned, in the buffer of a thread, or in an
answer that a thread has not looked at. A batch belongs to one thread (`Owned`), and what is left of it
there comes right behind what was returned of it. `Inv` says this of all batches, and a step of the scan
keeps it, whatever else happens on the connection.
-/

namespace Harbor.Quack.Scan

open Encoder (DataChunk)
open Runs KeyOrder

variable {n : Nat}

/-! ## Chunks of a stream -/

theorem ne_nil_of_mem_chunksOf :
    ∀ {fetches : List Fetched} {chunk : DataChunk}, chunk ∈ chunksOf fetches → chunk ≠ [] := by
  intro fetches
  induction fetches with
  | nil => intro chunk h; cases h
  | cons fetched fetches ih =>
      intro chunk h
      cases fetched with
      | null error => cases h
      | throws what => cases h
      | chunk rows =>
          cases rows with
          | nil => cases h
          | cons row rows =>
              obtain rfl | h := List.mem_cons.mp h
              · exact List.cons_ne_nil _ _
              · exact ih h

theorem isPrefix_of_takes {fetches : List Fetched} {out : List DataChunk} {rest : Option (List Fetched)}
    (h : Takes fetches out rest) : out <+: chunksOf fetches := by
  cases rest with
  | none => exact h.1 ▸ List.prefix_rfl
  | some rest => exact h.1 ▸ List.prefix_append _ _

/-! ## Who has what -/

/-- A chunk of a `FETCH_RESPONSE`. -/
def fetchedChunk (chunk : DataChunk) : ChunkResult := ⟨chunk, .pushdownAlreadyApplied⟩

/-- The chunks of batch `k` in an answer that was not looked at. -/
def Phase.inFlight : Phase → Nat → List ChunkResult
  | .responded (.fetchResponse results (some index)), k =>
      if index = k then results.map fetchedChunk else []
  | _, _ => []

/-- What a thread has of batch `k`. -/
def Thread.holding (thread : Thread) (k : Nat) : List ChunkResult :=
  (if thread.partitionIndex = k then thread.results else []) ++ thread.phase.inFlight k

/-- What a thread has of batch `k`, or what nobody has taken of it. -/
def State.holding (s : State n) (o : Option (Fin n)) (k : Nat) : List ChunkResult :=
  match o with
  | none => if k = 0 then s.shared.results else []
  | some i => (s.threads i).holding k

/-- Batch `k` is with `o`: only this thread has returned chunks of it, and it has the rest. -/
structure Owned (batches : List (List ChunkResult)) (s : State n) (k : Nat) (o : Option (Fin n)) :
    Prop where
  owner : ∀ e ∈ valuesOf s.emitted k, some e.1 = o
  whole : (valuesOf s.emitted k).map Prod.snd ++ s.holding o k = batches.getD k []
  others : ∀ p, p ≠ o → s.holding p k = []

theorem Owned.congr {batches batches' : List (List ChunkResult)} {s t : State n} {k : Nat}
    {o : Option (Fin n)} (h : Owned batches s k o) (hbatch : batches'.getD k [] = batches.getD k [])
    (hemitted : valuesOf t.emitted k = valuesOf s.emitted k)
    (hholding : ∀ p, t.holding p k = s.holding p k) : Owned batches' t k o where
  owner e he := h.owner e (hemitted ▸ he)
  whole := by rw [hemitted, hholding, hbatch, h.whole]
  others p hp := (hholding p).trans (h.others p hp)

/-- Whoever has something of a batch is its owner. -/
theorem Owned.eq_of_holding {batches : List (List ChunkResult)} {s : State n} {k : Nat}
    {o p : Option (Fin n)} (h : Owned batches s k o) (hp : s.holding p k ≠ []) : p = o := by
  by_contra hne
  exact hp (h.others p hne)

/-- Nothing is held of a batch that is not there. -/
theorem Owned.holding_eq_nil {batches : List (List ChunkResult)} {s : State n} {k : Nat}
    {o : Option (Fin n)} (h : Owned batches s k o) (hk : batches.length ≤ k) (p : Option (Fin n)) :
    s.holding p k = [] := by
  have hwhole := h.whole
  rw [List.getD_eq_default _ _ hk] at hwhole
  by_cases hp : p = o
  · rw [hp]
    exact (List.append_eq_nil_iff.mp hwhole).2
  · exact h.others p hp

/-! ## The invariant -/

/-- The chunks of the batches. -/
def chunksIn (batches : List (List ChunkResult)) : List DataChunk :=
  batches.flatten.map ChunkResult.chunk

theorem chunksIn_append (batches : List (List ChunkResult)) (out : List DataChunk) :
    chunksIn (batches ++ [out.map fetchedChunk]) = chunksIn batches ++ out := by
  have hout : (out.map fetchedChunk).map ChunkResult.chunk = out := by
    rw [List.map_map]
    exact List.map_id out
  simp [chunksIn, hout]

/-- The batches after that of the PREPARE come from `FETCH_RESPONSE`s. -/
def FromFetches (prepared : List ChunkResult) (batches : List (List ChunkResult)) : Prop :=
  ∃ later, batches = prepared :: later ∧
    ∀ batch ∈ later, ∀ result ∈ batch, result.pushdownType = .pushdownAlreadyApplied

/-- While the result of the scan is that of the session, what it has left is the rest of the stream. -/
def Current (stream : List Fetched) (batches : List (List ChunkResult)) (session : Session)
    (resultUuid : Nat) : Prop :=
  session.resultUuid = resultUuid → ∀ rest, session.duckdbQueryResult = some rest →
    session.nextBatchIndex = batches.length ∧ chunksIn batches ++ chunksOf rest <+: chunksOf stream ∧
      endsWell rest = endsWell stream ∧
      (endsWell rest = true → chunksIn batches ++ chunksOf rest = chunksOf stream)

structure Inv (stream : List Fetched) (prepared : List ChunkResult)
    (batches : List (List ChunkResult)) (s : State n) : Prop where
  fromFetches : FromFetches prepared batches
  inStream : chunksIn batches <+: chunksOf stream
  current : Current stream batches s.session s.shared.resultUuid
  owned : ∀ k, ∃ o, Owned batches s k o
  below : ∀ i, (s.threads i).partitionIndex < batches.length
  fresh : ∀ i, (s.threads i).phase = .created → s.threads i = {}
  idle : ∀ i, (s.threads i).phase = .requesting ∨ (∃ response, (s.threads i).phase = .responded response) →
    (s.threads i).results = []
  taken : ∀ i, (s.threads i).phase ≠ .created → s.shared.results = []
  answered : ∀ i results index, (s.threads i).phase = .responded (.fetchResponse results index) →
    (index = none → results = []) ∧
      ∀ k, index = some k → (s.threads i).partitionIndex < k ∧ k < batches.length
  ordered : s.emitted.Pairwise fun a b => a.2.1 = b.2.1 → a.1 ≤ b.1
  last : ∀ e ∈ s.emitted, e.1 ≤ (s.threads e.2.1).partitionIndex

/-- Nobody has a chunk without rows. -/
theorem Inv.chunk_ne_nil {stream : List Fetched} {prepared : List ChunkResult}
    {batches : List (List ChunkResult)} {s : State n} (hs : Inv stream prepared batches s)
    {o : Option (Fin n)} {k : Nat} {result : ChunkResult} (hresult : result ∈ s.holding o k) :
    result.chunk ≠ [] := by
  obtain ⟨p, hp⟩ := hs.owned k
  obtain rfl := hp.eq_of_holding (List.ne_nil_of_mem hresult)
  have hbatch : result ∈ batches.getD k [] := hp.whole ▸ List.mem_append_right _ hresult
  have hk : k < batches.length := by
    by_contra hk
    rw [List.getD_eq_default _ _ (Nat.le_of_not_lt hk)] at hbatch
    cases hbatch
  rw [List.getD_eq_getElem _ _ hk] at hbatch
  have hflat : result ∈ batches.flatten := List.mem_flatten.mpr ⟨_, List.getElem_mem hk, hbatch⟩
  exact ne_nil_of_mem_chunksOf (hs.inStream.subset (List.mem_map_of_mem hflat))

theorem holding_update {s t : State n} {i : Fin n} {thread : Thread}
    (hthreads : t.threads = Function.update s.threads i thread)
    (hresults : t.shared.results = s.shared.results)
    {k : Nat} (hsame : thread.holding k = (s.threads i).holding k) (p : Option (Fin n)) :
    t.holding p k = s.holding p k := by
  cases p with
  | none => simp only [State.holding, hresults]
  | some j =>
      simp only [State.holding, hthreads]
      by_cases hj : j = i
      · subst hj
        rw [Function.update_self, hsame]
      · rw [Function.update_of_ne hj]

/-- A step of one thread that neither returns a chunk nor moves one. -/
theorem Inv.of_thread {stream : List Fetched} {prepared : List ChunkResult}
    {batches : List (List ChunkResult)} {s t : State n} (hs : Inv stream prepared batches s)
    {i : Fin n} {thread : Thread}
    (hthreads : t.threads = Function.update s.threads i thread)
    (hresults : t.shared.results = s.shared.results) (hemitted : t.emitted = s.emitted)
    (hsame : ∀ k, thread.holding k = (s.threads i).holding k)
    (hcurrent : Current stream batches t.session t.shared.resultUuid)
    (hstarted : (s.threads i).phase ≠ .created) (hphase : thread.phase ≠ .created)
    (hle : (s.threads i).partitionIndex ≤ thread.partitionIndex)
    (hbelow : thread.partitionIndex < batches.length)
    (hidle : thread.phase = .requesting ∨ (∃ response, thread.phase = .responded response) →
      thread.results = [])
    (hanswered : ∀ results index, thread.phase = .responded (.fetchResponse results index) →
      (index = none → results = []) ∧
        ∀ k, index = some k → thread.partitionIndex < k ∧ k < batches.length) :
    Inv stream prepared batches t where
  fromFetches := hs.fromFetches
  inStream := hs.inStream
  current := hcurrent
  owned k := by
    obtain ⟨o, ho⟩ := hs.owned k
    exact ⟨o, ho.congr rfl (by rw [hemitted]) (holding_update hthreads hresults (hsame k))⟩
  below j := by
    rw [hthreads]
    by_cases hj : j = i
    · rw [hj, Function.update_self]
      exact hbelow
    · rw [Function.update_of_ne hj]
      exact hs.below j
  fresh j hj := by
    rw [hthreads] at hj ⊢
    by_cases hji : j = i
    · rw [hji, Function.update_self] at hj
      exact absurd hj hphase
    · rw [Function.update_of_ne hji] at hj ⊢
      exact hs.fresh j hj
  idle j hj := by
    rw [hthreads] at hj ⊢
    by_cases hji : j = i
    · rw [hji, Function.update_self] at hj ⊢
      exact hidle hj
    · rw [Function.update_of_ne hji] at hj ⊢
      exact hs.idle j hj
  taken _ _ := hresults ▸ hs.taken i hstarted
  answered j results index hj := by
    rw [hthreads] at hj ⊢
    by_cases hji : j = i
    · rw [hji, Function.update_self] at hj ⊢
      exact hanswered results index hj
    · rw [Function.update_of_ne hji] at hj ⊢
      exact hs.answered j results index hj
  ordered := hemitted ▸ hs.ordered
  last e he := by
    have hold := hs.last e (hemitted ▸ he)
    rw [hthreads]
    by_cases hji : e.2.1 = i
    · rw [hji, Function.update_self]
      rw [hji] at hold
      exact hold.trans hle
    · rw [Function.update_of_ne hji]
      exact hold

/-! ## What a step can do -/

theorem step_initLocal {s t : State n} {i : Fin n} (h : step s (.initLocal i) = some t) :
    (s.threads i).phase = .created ∧
      t = { s with
        shared := { s.shared with results := [] }
        threads := Function.update s.threads i ⟨.scanning, none, s.shared.results⟩ } := by
  unfold step at h
  dsimp only at h
  split at h
  · rename_i hphase
    exact ⟨hphase, (Option.some.inj h).symm⟩
  · cases h

theorem step_pop {s t : State n} {i : Fin n} (h : step s (.pop i) = some t) :
    ∃ result results, (s.threads i).phase = .scanning ∧ (s.threads i).results = result :: results ∧
      (result.chunk = [] ∧ t = s.setThread i { s.threads i with results } ∨
        ∃ phase, (phase = .finished ∨ phase = .scanning) ∧
        (phase = .finished → result.output s.shared.columnIds = []) ∧
        t = { s with
          threads := Function.update s.threads i { s.threads i with phase, results }
          emitted := s.emitted ++ [((s.threads i).partitionIndex, i, result)] }) := by
  unfold step at h
  dsimp only at h
  split at h
  · rename_i result results hphase hresults
    refine ⟨result, results, hphase, hresults, ?_⟩
    split at h
    · rename_i hempty
      exact Or.inl ⟨List.isEmpty_iff.mp hempty, (Option.some.inj h).symm⟩
    · refine Or.inr ⟨_, ?_, ?_, (Option.some.inj h).symm⟩
      · split
        · exact Or.inl rfl
        · exact Or.inr hphase
      · split
        · rename_i hempty
          exact fun _ => List.isEmpty_iff.mp hempty
        · rw [hphase]
          exact fun hfinished => by cases hfinished
  · cases h

theorem step_check {s t : State n} {i : Fin n} (h : step s (.check i) = some t) :
    (s.threads i).phase = .scanning ∧ (s.threads i).results = [] ∧
      (s.shared.needsMoreFetch = true ∧ t = s.setThread i { s.threads i with phase := .requesting } ∨
        s.shared.needsMoreFetch = false ∧ t = s.setThread i { s.threads i with phase := .finished }) := by
  unfold step at h
  dsimp only at h
  split at h
  · rename_i hphase hresults
    refine ⟨hphase, hresults, ?_⟩
    split at h
    · rename_i hneeds
      exact Or.inl ⟨hneeds, (Option.some.inj h).symm⟩
    · rename_i hneeds
      exact Or.inr ⟨by simpa using hneeds, (Option.some.inj h).symm⟩
  · cases h

theorem step_serve {s t : State n} {i : Fin n} {pendingError : Option Bytes} {setting : Option UInt64}
    (h : step s (.serve i pendingError setting) = some t) :
    (s.threads i).phase = .requesting ∧
      t = { s with
        session := (s.session.fetch s.shared.resultUuid pendingError setting).2
        threads := Function.update s.threads i
          { s.threads i with
            phase := .responded (s.session.fetch s.shared.resultUuid pendingError setting).1 } } := by
  unfold step at h
  dsimp only at h
  split at h
  · rename_i hphase
    exact ⟨hphase, (Option.some.inj h).symm⟩
  · cases h

theorem step_receive {s t : State n} {i : Fin n} (h : step s (.receive i) = some t) :
    ∃ response, (s.threads i).phase = .responded response ∧ t = s.receive i response := by
  unfold step at h
  dsimp only at h
  split at h
  · rename_i response hphase
    exact ⟨response, hphase, (Option.some.inj h).symm⟩
  · cases h

theorem step_prepare {s t : State n} {allowed : Bool} {sent : Sent} {uuid : Nat}
    {setting : Option UInt64} (h : step s (.prepare allowed sent uuid setting) = some t) :
    uuid ≠ s.shared.resultUuid ∧
      t = { s with session := (s.session.prepare allowed sent uuid setting).2 } := by
  unfold step at h
  dsimp only at h
  split at h
  · cases h
  · rename_i hne
    exact ⟨hne, (Option.some.inj h).symm⟩

/-! ## The steps keep the invariant -/

variable {stream : List Fetched} {prepared : List ChunkResult} {batches : List (List ChunkResult)}
  {s t : State n} {i : Fin n}

/-- A phase without chunks for another one. -/
theorem holding_withPhase {thread : Thread} {phase : Phase} {k : Nat}
    (h : phase.inFlight k = thread.phase.inFlight k) :
    Thread.holding { thread with phase } k = thread.holding k := by
  show _ ++ phase.inFlight k = _ ++ thread.phase.inFlight k
  rw [h]
  rfl

theorem holding_fresh {thread : Thread} (h : thread = {}) (k : Nat) : thread.holding k = [] := by
  subst h
  simp [Thread.holding, Phase.inFlight]

/-- The first thread takes what the PREPARE has answered, and a later one nothing. -/
theorem Inv.initLocal (hs : Inv stream prepared batches s) (h : step s (.initLocal i) = some t) :
    Inv stream prepared batches t := by
  obtain ⟨hphase, rfl⟩ := step_initLocal h
  have hfresh := hs.fresh i hphase
  have hpos : 0 < batches.length := Nat.zero_lt_of_lt (hs.below i)
  have hnew : ∀ k, Thread.holding ⟨.scanning, none, s.shared.results⟩ k =
      if k = 0 then s.shared.results else [] := by
    intro k
    by_cases hk : k = 0
    · simp [Thread.holding, Thread.partitionIndex, Phase.inFlight, hk]
    · simp [Thread.holding, Thread.partitionIndex, Phase.inFlight, hk, Ne.symm hk]
  constructor
  · exact hs.fromFetches
  · exact hs.inStream
  · exact hs.current
  · intro k
    obtain ⟨o, ho⟩ := hs.owned k
    have hothers : ∀ j, j ≠ i →
        (Function.update s.threads i ⟨.scanning, none, s.shared.results⟩ j).holding k =
          (s.threads j).holding k := by
      intro j hj
      rw [Function.update_of_ne hj]
    have hself : (Function.update s.threads i ⟨.scanning, none, s.shared.results⟩ i).holding k =
        s.holding none k := by
      rw [Function.update_self, hnew]
      rfl
    cases o with
    | none =>
        -- what nobody had taken is with `i` now
        refine ⟨some i, ?_, ?_, ?_⟩
        · intro e he
          exact absurd (ho.owner e he) (Option.some_ne_none _)
        · rw [← ho.whole]
          exact congrArg _ hself
        · intro p hp
          cases p with
          | none => simp [State.holding]
          | some j =>
              have hj : j ≠ i := fun hji => hp (congrArg some hji)
              exact (hothers j hj).trans (ho.others (some j) (Option.some_ne_none _))
    | some j =>
        have hnone : s.holding none k = [] := ho.others none (Option.some_ne_none _).symm
        refine ⟨some j, ho.congr rfl rfl fun p => ?_⟩
        cases p with
        | none =>
            rw [hnone]
            simp [State.holding]
        | some l =>
            by_cases hl : l = i
            · subst hl
              refine hself.trans (hnone.trans ?_)
              exact (holding_fresh hfresh k).symm
            · exact hothers l hl
  · intro j
    dsimp only
    by_cases hj : j = i
    · rw [hj, Function.update_self]
      exact hpos
    · rw [Function.update_of_ne hj]
      exact hs.below j
  · intro j hj
    dsimp only at hj ⊢
    by_cases hji : j = i
    · rw [hji, Function.update_self] at hj
      cases hj
    · rw [Function.update_of_ne hji] at hj ⊢
      exact hs.fresh j hj
  · intro j hj
    dsimp only at hj ⊢
    by_cases hji : j = i
    · rw [hji, Function.update_self] at hj
      obtain hj | ⟨response, hj⟩ := hj <;> cases hj
    · rw [Function.update_of_ne hji] at hj ⊢
      exact hs.idle j hj
  · intro j hj
    rfl
  · intro j results index hj
    dsimp only at hj ⊢
    by_cases hji : j = i
    · rw [hji, Function.update_self] at hj
      cases hj
    · rw [Function.update_of_ne hji] at hj ⊢
      exact hs.answered j results index hj
  · exact hs.ordered
  · intro e he
    have hold := hs.last e he
    dsimp only
    by_cases hji : e.2.1 = i
    · rw [hji, hfresh] at hold
      rw [hji, Function.update_self]
      exact hold
    · rw [Function.update_of_ne hji]
      exact hold

/-- A chunk that is returned goes behind what was returned of its batch. -/
theorem Inv.pop (hs : Inv stream prepared batches s) (h : step s (.pop i) = some t) :
    Inv stream prepared batches t := by
  obtain ⟨result, results, hphase, hresults, hstep⟩ := step_pop h
  have hheld : (s.threads i).holding (s.threads i).partitionIndex = result :: results := by
    simp [Thread.holding, hphase, hresults, Phase.inFlight]
  have hne : result.chunk ≠ [] :=
    hs.chunk_ne_nil (o := some i) (k := (s.threads i).partitionIndex)
      (by rw [State.holding, hheld]; exact List.mem_cons_self)
  obtain ⟨phase, hphase', -, rfl⟩ := hstep.resolve_left fun hempty => hne hempty.1
  have hquiet : ∀ k, Thread.holding { s.threads i with phase, results } k =
      if (s.threads i).partitionIndex = k then results else [] := by
    intro k
    obtain rfl | rfl := hphase' <;> exact List.append_nil _
  have hindex : ∀ j, (Function.update s.threads i { s.threads i with phase, results } j).partitionIndex =
      (s.threads j).partitionIndex := by
    intro j
    by_cases hj : j = i
    · subst hj
      rw [Function.update_self]
      rfl
    · rw [Function.update_of_ne hj]
  constructor
  · exact hs.fromFetches
  · exact hs.inStream
  · exact hs.current
  · intro k
    obtain ⟨o, ho⟩ := hs.owned k
    by_cases hk : (s.threads i).partitionIndex = k
    · rw [hk] at hheld
      have howner : some i = o := ho.eq_of_holding (by rw [State.holding, hheld]; exact List.cons_ne_nil _ _)
      subst howner
      have hemitted : valuesOf (s.emitted ++ [((s.threads i).partitionIndex, i, result)]) k =
          valuesOf s.emitted k ++ [(i, result)] := by
        rw [valuesOf_append, hk, valuesOf_singleton_self]
      refine ⟨some i, ?_, ?_, ?_⟩
      · intro e he
        rw [hemitted] at he
        obtain he | he := List.mem_append.mp he
        · exact ho.owner e he
        · rw [List.mem_singleton.mp he]
      · rw [hemitted, ← ho.whole]
        simp only [State.holding, Function.update_self, hquiet, hheld, if_pos hk]
        simp
      · intro p hp
        refine Eq.trans ?_ (ho.others p hp)
        cases p with
        | none => rfl
        | some j =>
            have hj : j ≠ i := fun hji => hp (congrArg some hji)
            simp only [State.holding, Function.update_of_ne hj]
    · have hsame : Thread.holding { s.threads i with phase, results } k = (s.threads i).holding k := by
        rw [hquiet, if_neg hk, Thread.holding, if_neg hk, hphase]
        rfl
      refine ⟨o, ho.congr rfl ?_ ?_⟩
      · rw [valuesOf_append, valuesOf_singleton_ne hk, List.append_nil]
      · refine holding_update (i := i) ?_ ?_ hsame
        · rfl
        · rfl
  · intro j
    rw [hindex]
    exact hs.below j
  · intro j hj
    dsimp only at hj ⊢
    by_cases hji : j = i
    · rw [hji, Function.update_self] at hj
      obtain hphase' | hphase' := hphase' <;> cases hphase'.symm.trans hj
    · rw [Function.update_of_ne hji] at hj ⊢
      exact hs.fresh j hj
  · intro j hj
    dsimp only at hj ⊢
    by_cases hji : j = i
    · rw [hji, Function.update_self] at hj
      obtain hj | ⟨response, hj⟩ := hj
      · obtain hphase' | hphase' := hphase' <;> cases hphase'.symm.trans hj
      · obtain hphase' | hphase' := hphase' <;> cases hphase'.symm.trans hj
    · rw [Function.update_of_ne hji] at hj ⊢
      exact hs.idle j hj
  · intro j hj
    exact hs.taken i (by rw [hphase]; exact Phase.noConfusion)
  · intro j answer index hj
    dsimp only at hj ⊢
    by_cases hji : j = i
    · rw [hji, Function.update_self] at hj
      obtain hphase' | hphase' := hphase' <;> cases hphase'.symm.trans hj
    · rw [Function.update_of_ne hji] at hj ⊢
      exact hs.answered j answer index hj
  · refine List.pairwise_append.mpr ⟨hs.ordered, List.pairwise_singleton _ _, ?_⟩
    intro e he e' he' hsame
    rw [List.mem_singleton.mp he'] at hsame ⊢
    have hlast := hs.last e he
    rw [hsame] at hlast
    exact hlast
  · intro e he
    dsimp only
    rw [hindex]
    obtain he | he := List.mem_append.mp he
    · exact hs.last e he
    · rw [List.mem_singleton.mp he]

theorem Inv.check (hs : Inv stream prepared batches s) (h : step s (.check i) = some t) :
    Inv stream prepared batches t := by
  obtain ⟨hphase, hresults, hstep⟩ := step_check h
  have hstarted : (s.threads i).phase ≠ .created := by
    rw [hphase]
    exact Phase.noConfusion
  obtain ⟨-, rfl⟩ | ⟨-, rfl⟩ := hstep
  · exact hs.of_thread rfl rfl rfl (fun _ => holding_withPhase (by rw [hphase]; rfl)) hs.current hstarted
      Phase.noConfusion le_rfl (hs.below i) (fun _ => hresults) fun _ _ hphase => by cases hphase
  · exact hs.of_thread rfl rfl rfl (fun _ => holding_withPhase (by rw [hphase]; rfl)) hs.current hstarted
      Phase.noConfusion le_rfl (hs.below i) (fun _ => hresults) fun _ _ hphase => by cases hphase

theorem Inv.receive (hs : Inv stream prepared batches s) (h : step s (.receive i) = some t) :
    Inv stream prepared batches t := by
  obtain ⟨response, hphase, rfl⟩ := step_receive h
  have hresults := hs.idle i (Or.inr ⟨response, hphase⟩)
  have hstarted : (s.threads i).phase ≠ .created := by
    rw [hphase]
    exact Phase.noConfusion
  cases response with
  | errorResponse message =>
      exact hs.of_thread rfl rfl rfl (fun _ => holding_withPhase (by rw [hphase]; rfl)) hs.current hstarted
        Phase.noConfusion le_rfl (hs.below i) (fun _ => hresults) fun _ _ hphase => by cases hphase
  | exception =>
      exact hs.of_thread rfl rfl rfl (fun _ => holding_withPhase (by rw [hphase]; rfl)) hs.current hstarted
        Phase.noConfusion le_rfl (hs.below i) (fun _ => hresults) fun _ _ hphase => by cases hphase
  | prepareResponse uuid results needsMoreFetch =>
      exact hs.of_thread rfl rfl rfl (fun _ => holding_withPhase (by rw [hphase]; rfl)) hs.current hstarted
        Phase.noConfusion le_rfl (hs.below i) (fun _ => hresults) fun _ _ hphase => by cases hphase
  | fetchResponse results batchIndex =>
      obtain ⟨hnone, hindex⟩ := hs.answered i results batchIndex hphase
      cases results with
      | nil =>
          refine hs.of_thread rfl rfl rfl (fun k => holding_withPhase ?_) hs.current hstarted
            Phase.noConfusion le_rfl (hs.below i) (fun _ => hresults) fun _ _ hphase => by cases hphase
          cases batchIndex with
          | none =>
              rw [hphase]
              rfl
          | some index =>
              rw [hphase]
              exact (ite_self _).symm
      | cons chunk chunks =>
          cases batchIndex with
          | none => cases hnone rfl
          | some index =>
              obtain ⟨hlt, hbelow⟩ := hindex index rfl
              refine hs.of_thread rfl rfl rfl (fun k => ?_) hs.current hstarted Phase.noConfusion
                hlt.le hbelow (fun hphase => ?_) fun _ _ hphase => by cases hphase
              · -- the answer was held under the index that the buffer has now
                by_cases hk : index = k
                · simp [Thread.holding, Thread.partitionIndex, hphase, hresults, Phase.inFlight, hk,
                    fetchedChunk]
                · simp [Thread.holding, Thread.partitionIndex, hphase, hresults, Phase.inFlight, hk]
              · obtain hphase | ⟨response, hphase⟩ := hphase <;> cases hphase

/-- Another PREPARE of the connection leaves the result of the scan, or drops it, or has a uuid of its
own. -/
theorem prepare_current {session : Session} {resultUuid : Nat} {allowed : Bool} {sent : Sent}
    {uuid : Nat} {setting : Option UInt64} (hne : uuid ≠ resultUuid)
    (h : (session.prepare allowed sent uuid setting).2.resultUuid = resultUuid) :
    session.resultUuid = resultUuid ∧
      ((session.prepare allowed sent uuid setting).2 = session ∨
        (session.prepare allowed sent uuid setting).2 = { session with duckdbQueryResult := none }) := by
  obtain ⟨response, -, heq⟩ | ⟨response, -, heq⟩ | ⟨response, rest, -, heq⟩ |
    ⟨names, fetches, out, needsMoreFetch, rest, -, heq, -⟩ :=
    session.prepare_cases allowed sent uuid setting
  · rw [heq] at h ⊢
    exact ⟨h, Or.inl rfl⟩
  · rw [heq] at h ⊢
    exact ⟨h, Or.inr rfl⟩
  · rw [heq] at h
    exact absurd h hne
  · rw [heq] at h
    exact absurd h hne

theorem Inv.prepare (hs : Inv stream prepared batches s) {allowed : Bool} {sent : Sent} {uuid : Nat}
    {setting : Option UInt64} (h : step s (.prepare allowed sent uuid setting) = some t) :
    Inv stream prepared batches t := by
  obtain ⟨hne, rfl⟩ := step_prepare h
  refine
    { fromFetches := hs.fromFetches
      inStream := hs.inStream
      current := fun huuid => ?_
      owned := fun k => ?_
      below := hs.below
      fresh := hs.fresh
      idle := hs.idle
      taken := hs.taken
      answered := hs.answered
      ordered := hs.ordered
      last := hs.last }
  · obtain ⟨hcurrent, heq | heq⟩ := prepare_current hne huuid
    · dsimp only
      rw [heq]
      exact hs.current hcurrent
    · dsimp only
      rw [heq]
      exact fun rest hrest => by cases hrest
  · obtain ⟨o, ho⟩ := hs.owned k
    exact ⟨o, ho.congr rfl rfl fun p => by cases p <;> rfl⟩

/-- A batch that is served is behind all others, and with the thread that asked for it. -/
theorem Inv.serve_batch (hs : Inv stream prepared batches s) (hphase : (s.threads i).phase = .requesting)
    (huuid : s.session.resultUuid = s.shared.resultUuid) {fetches : List Fetched}
    (hfetches : s.session.duckdbQueryResult = some fetches) {out : List DataChunk}
    {rest : Option (List Fetched)} (htakes : Takes fetches out rest) :
    Inv stream prepared (batches ++ [out.map fetchedChunk])
      { s with
        session := { s.session with
          duckdbQueryResult := rest
          nextBatchIndex := s.session.nextBatchIndex + 1 }
        threads := Function.update s.threads i
          { s.threads i with
            phase := .responded (.fetchResponse out (some s.session.nextBatchIndex)) } } := by
  obtain ⟨hindex, hstays, hends, hwhole⟩ := hs.current huuid fetches hfetches
  have hresults := hs.idle i (Or.inl hphase)
  have hempty : ∀ k, (s.threads i).holding k = [] := by
    intro k
    rw [Thread.holding, hphase, hresults]
    simp [Phase.inFlight]
  have hnew : ∀ k, Thread.holding { s.threads i with
      phase := .responded (.fetchResponse out (some s.session.nextBatchIndex)) } k =
      if s.session.nextBatchIndex = k then out.map fetchedChunk else [] := by
    intro k
    simp [Thread.holding, Phase.inFlight, hresults]
  have hnone : ∀ p, s.holding p batches.length = [] := by
    obtain ⟨o, ho⟩ := hs.owned batches.length
    exact ho.holding_eq_nil le_rfl
  have hemitted : valuesOf s.emitted batches.length = [] :=
    valuesOf_eq_nil fun e he => Nat.ne_of_lt ((hs.last e he).trans_lt (hs.below e.2.1))
  constructor
  · obtain ⟨later, hlater, happlied⟩ := hs.fromFetches
    refine ⟨later ++ [out.map fetchedChunk], by rw [hlater, List.cons_append], ?_⟩
    intro batch hbatch result hresult
    obtain hbatch | hbatch := List.mem_append.mp hbatch
    · exact happlied batch hbatch result hresult
    · rw [List.mem_singleton.mp hbatch] at hresult
      obtain ⟨chunk, -, rfl⟩ := List.mem_map.mp hresult
      rfl
  · rw [chunksIn_append]
    exact ((List.prefix_append_right_inj _).mpr (isPrefix_of_takes htakes)).trans hstays
  · intro _ left hleft
    dsimp only at hleft
    subst hleft
    refine ⟨by rw [List.length_append, hindex]; rfl, ?_⟩
    rw [chunksIn_append, List.append_assoc, htakes.1, htakes.2]
    exact ⟨hstays, hends, hwhole⟩
  · intro k
    by_cases hk : k = batches.length
    · subst hk
      refine ⟨some i, ?_, ?_, ?_⟩
      · intro e he
        rw [hemitted] at he
        cases he
      · rw [hemitted, List.getD_append_right _ _ _ _ le_rfl, Nat.sub_self]
        simp only [State.holding, Function.update_self, hnew, if_pos hindex]
        rfl
      · intro p hp
        refine Eq.trans ?_ (hnone p)
        cases p with
        | none => rfl
        | some j =>
            have hj : j ≠ i := fun hji => hp (congrArg some hji)
            simp only [State.holding, Function.update_of_ne hj]
    · have hbatch : (batches ++ [out.map fetchedChunk]).getD k [] = batches.getD k [] := by
        obtain hlt | hgt := Nat.lt_or_gt_of_ne hk
        · exact List.getD_append _ _ _ _ hlt
        · rw [List.getD_eq_default _ _ (by simpa using hgt), List.getD_eq_default _ _ hgt.le]
      have hsame : Thread.holding { s.threads i with
          phase := .responded (.fetchResponse out (some s.session.nextBatchIndex)) } k =
          (s.threads i).holding k := by
        rw [hnew, if_neg (by rw [hindex]; exact Ne.symm hk), hempty]
      obtain ⟨o, ho⟩ := hs.owned k
      refine ⟨o, ho.congr hbatch rfl ?_⟩
      refine holding_update (i := i) ?_ ?_ hsame
      · rfl
      · rfl
  · intro j
    have hbelow := hs.below j
    dsimp only
    rw [List.length_append]
    by_cases hj : j = i
    · subst hj
      rw [Function.update_self]
      exact Nat.lt_succ_of_lt hbelow
    · rw [Function.update_of_ne hj]
      exact Nat.lt_succ_of_lt hbelow
  · intro j hj
    dsimp only at hj ⊢
    by_cases hji : j = i
    · rw [hji, Function.update_self] at hj
      cases hj
    · rw [Function.update_of_ne hji] at hj ⊢
      exact hs.fresh j hj
  · intro j hj
    dsimp only at hj ⊢
    by_cases hji : j = i
    · rw [hji, Function.update_self]
      exact hresults
    · rw [Function.update_of_ne hji] at hj ⊢
      exact hs.idle j hj
  · intro _ _
    exact hs.taken i (by rw [hphase]; exact Phase.noConfusion)
  · intro j results index hj
    dsimp only at hj ⊢
    rw [List.length_append]
    by_cases hji : j = i
    · subst hji
      rw [Function.update_self] at hj ⊢
      cases hj
      refine ⟨fun hnone => (Option.some_ne_none _ hnone).elim, ?_⟩
      rintro k ⟨⟩
      rw [hindex]
      exact ⟨hs.below j, Nat.lt_succ_self _⟩
    · rw [Function.update_of_ne hji] at hj ⊢
      obtain ⟨hnil, hlt⟩ := hs.answered j results index hj
      exact ⟨hnil, fun k hk => ⟨(hlt k hk).1, Nat.lt_succ_of_lt (hlt k hk).2⟩⟩
  · exact hs.ordered
  · intro e he
    have hold := hs.last e he
    dsimp only
    by_cases hji : e.2.1 = i
    · rw [hji, Function.update_self]
      rw [hji] at hold
      exact hold
    · rw [Function.update_of_ne hji]
      exact hold

/-- An answer without chunks, with an error or at the end, moves none. -/
theorem Inv.serve_nothing (hs : Inv stream prepared batches s)
    (hphase : (s.threads i).phase = .requesting) {response : Response} {session : Session}
    (hresponse : response.isError = true ∨ response = .fetchResponse [] none)
    (hcurrent : Current stream batches session s.shared.resultUuid) :
    Inv stream prepared batches
      { s with
        session
        threads := Function.update s.threads i { s.threads i with phase := .responded response } } := by
  have hstarted : (s.threads i).phase ≠ .created := by
    rw [hphase]
    exact Phase.noConfusion
  have hflight : (Phase.responded response).inFlight = fun _ => [] := by
    obtain herror | rfl := hresponse
    · cases response with
      | fetchResponse results batchIndex => cases herror
      | prepareResponse uuid results needsMoreFetch => cases herror
      | errorResponse message => rfl
      | exception => rfl
    · rfl
  refine hs.of_thread rfl rfl rfl (fun k => holding_withPhase ?_) hcurrent hstarted Phase.noConfusion
    le_rfl (hs.below i) (fun _ => hs.idle i (Or.inl hphase)) ?_
  · rw [hflight, hphase]
    rfl
  · rintro results index ⟨⟩
    obtain herror | heq := hresponse
    · cases herror
    · cases heq
      exact ⟨fun _ => rfl, fun k hk => by cases hk⟩

end Harbor.Quack.Scan
