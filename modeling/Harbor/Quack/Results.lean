import Harbor.Lib.Runs
import Harbor.Quack.Batch

set_option autoImplicit false

/-! # The results of a Quack session

A session holds one current result, with a uuid for the client to fetch it by. `PREPARE_REQUEST` drops
it, and sets the uuid only when the next query has sent its result; `FETCH_REQUEST` takes an absent
result for one that was delivered to its end. Both hold the lock of the session, so a session goes
through their messages one after another, whatever threads they come from.

What the engine does is a part of the messages: whether a query is sent, what the calls of `Fetch` come
to, the uuids, the setting at that time. A stream that has thrown keeps throwing.
-/

namespace Harbor.Quack

open Encoder (DataChunk)
open Runs

/-! ## Streams -/

/-- The chunks of a result, up to its end or its first failure. -/
def chunksOf : List Fetched → List DataChunk
  | .chunk (row :: rows) :: fetches => (row :: rows) :: chunksOf fetches
  | _ => []

/-- The result has an end, and no failure before. -/
def endsWell : List Fetched → Bool
  | [] => true
  | .chunk [] :: _ => true
  | .chunk (_ :: _) :: fetches => endsWell fetches
  | .null error :: _ => error.isNone
  | .throws _ :: _ => false

/-- The next `Fetch` finds the end. -/
def atEnd (fetches : List Fetched) : Bool := (chunksOf fetches).isEmpty && endsWell fetches

/-- What `CreateBatch` does: it fails on a failure of the stream, takes the stream to its end, or takes
as many chunks as it may. -/
theorem createBatch_cases (maxChunks : Nat) :
    ∀ (fetches : List Fetched) (results : List DataChunk), results.length ≤ maxChunks →
      (∃ what, createBatch maxChunks results fetches = .error what ∧ endsWell fetches = false ∧
        maxChunks ≠ 0) ∨
      (∃ rest error, createBatch maxChunks results fetches = .ok ⟨[], some rest, some error⟩ ∧
        endsWell fetches = false ∧ maxChunks ≠ 0) ∨
      (createBatch maxChunks results fetches = .ok ⟨results ++ chunksOf fetches, none, none⟩ ∧
        endsWell fetches = true ∧ (results ++ chunksOf fetches).length < maxChunks) ∨
      (∃ out rest, createBatch maxChunks results fetches = .ok ⟨out, some rest, none⟩ ∧
        out ++ chunksOf rest = results ++ chunksOf fetches ∧ endsWell rest = endsWell fetches ∧
        out.length = maxChunks) := by
  intro fetches
  induction fetches with
  | nil =>
      intro results hle
      unfold createBatch
      by_cases hlt : results.length < maxChunks
      · rw [if_pos hlt]
        exact Or.inr (Or.inr (Or.inl ⟨by simp [chunksOf], rfl, by simpa [chunksOf] using hlt⟩))
      · rw [if_neg hlt]
        exact Or.inr (Or.inr (Or.inr ⟨results, [], rfl, rfl, rfl, by omega⟩))
  | cons fetched fetches ih =>
      intro results hle
      unfold createBatch
      by_cases hlt : results.length < maxChunks
      · rw [if_pos hlt]
        have hne : maxChunks ≠ 0 := by omega
        cases fetched with
        | throws what => exact Or.inl ⟨what, rfl, rfl, hne⟩
        | null error =>
            cases error with
            | some error => exact Or.inr (Or.inl ⟨fetches, error, rfl, rfl, hne⟩)
            | none =>
                exact Or.inr (Or.inr (Or.inl ⟨by simp [chunksOf], rfl, by simpa [chunksOf] using hlt⟩))
        | chunk rows =>
            cases rows with
            | nil =>
                exact Or.inr (Or.inr (Or.inl ⟨by simp [chunksOf], rfl, by simpa [chunksOf] using hlt⟩))
            | cons row rows =>
                -- the chunk joins the batch, and the loop goes on with the rest
                have happend : results ++ chunksOf (.chunk (row :: rows) :: fetches) =
                    results ++ [row :: rows] ++ chunksOf fetches := by
                  simp [chunksOf]
                rw [happend]
                exact ih (results ++ [row :: rows]) (by simpa using hlt)
      · rw [if_neg hlt]
        exact Or.inr (Or.inr (Or.inr ⟨results, _, rfl, rfl, rfl, by omega⟩))

/-! ## The messages -/

/-- The part of a `HarborSession` that the two messages read and change. -/
structure Session where
  duckdbQueryResult : Option (List Fetched) := none
  nextBatchIndex : Nat := 1
  resultUuid : Nat := 0
deriving Repr

/-- What a message is answered with. -/
inductive Response where
  | errorResponse (message : Bytes)
  /-- The exception leaves the handler, and the server answers with a 500. -/
  | exception
  | prepareResponse (resultUuid : Nat) (results : List DataChunk) (needsMoreFetch : Bool)
  | fetchResponse (results : List DataChunk) (batchIndex : Option Nat)
deriving Repr

/-- What `SendQuery` comes to. -/
inductive Sent where
  | throws
  | error (message : Bytes)
  | result (names : List Bytes) (fetches : List Fetched)
deriving Repr

/-- `PREPARE_REQUEST`: `allowed` is the answer of the callback, `setting` is
`quack_fetch_batch_chunks`, `none` when it is NULL. -/
def Session.prepare (s : Session) (allowed : Bool) (sent : Sent) (uuid : Nat)
    (setting : Option UInt64) : Response × Session :=
  if allowed then
    match sent with
    | .throws => (.exception, { s with duckdbQueryResult := none })
    | .error message => (.errorResponse message, { s with duckdbQueryResult := none })
    | .result names fetches =>
        if names = [] then
          (.errorResponse (lit "Query did not return any columns"), { s with duckdbQueryResult := none })
        else
          match setting with
          | none => (.exception, ⟨some fetches, 1, uuid⟩)
          | some maxChunks =>
              match createBatch maxChunks.toNat [] fetches with
              | .error what => (.exception, ⟨some [.throws what], 1, uuid⟩)
              | .ok ⟨_, _, some message⟩ => (.errorResponse message, ⟨none, 1, uuid⟩)
              | .ok ⟨results, rest, none⟩ =>
                  (.prepareResponse uuid results (results.length == maxChunks.toNat), ⟨rest, 1, uuid⟩)
  else (.errorResponse (lit "Authorization failed"), s)

/-- `FETCH_REQUEST`: `pendingError` is an error the result has before anything is fetched. -/
def Session.fetch (s : Session) (uuid : Nat) (pendingError : Option Bytes)
    (setting : Option UInt64) : Response × Session :=
  if s.resultUuid ≠ uuid then (.errorResponse (lit "Result has been closed"), s)
  else
    match s.duckdbQueryResult with
    | none => (.fetchResponse [] none, s)
    | some fetches =>
        match pendingError, setting with
        | some message, _ => (.errorResponse message, s)
        | none, none => (.exception, s)
        | none, some maxChunks =>
            match createBatch maxChunks.toNat [] fetches with
            | .error what => (.exception, { s with duckdbQueryResult := some [.throws what] })
            | .ok ⟨_, _, some message⟩ => (.errorResponse message, { s with duckdbQueryResult := none })
            | .ok ⟨results, rest, none⟩ =>
                (.fetchResponse results (some s.nextBatchIndex),
                  { s with duckdbQueryResult := rest, nextBatchIndex := s.nextBatchIndex + 1 })

/-! ## What a message can do -/

def Response.isError : Response → Bool
  | .errorResponse _ | .exception => true
  | _ => false

/-- The chunks `out` are taken from the result, and `rest` is left: nothing when they are all of it. -/
def Takes (fetches : List Fetched) (out : List DataChunk) : Option (List Fetched) → Prop
  | none => out = chunksOf fetches ∧ endsWell fetches = true
  | some rest => out ++ chunksOf rest = chunksOf fetches ∧ endsWell rest = endsWell fetches

/-- A PREPARE is refused, or drops the result and fails, or fails with a uuid it does not tell, or
answers with the beginning of a new result. -/
theorem Session.prepare_cases (s : Session) (allowed : Bool) (sent : Sent) (uuid : Nat)
    (setting : Option UInt64) :
    (∃ response, response.isError = true ∧ s.prepare allowed sent uuid setting = (response, s)) ∨
    (∃ response, response.isError = true ∧ s.prepare allowed sent uuid setting =
      (response, { s with duckdbQueryResult := none })) ∨
    (∃ response rest, response.isError = true ∧ s.prepare allowed sent uuid setting =
      (response, ⟨rest, 1, uuid⟩)) ∨
    (∃ names fetches out needsMoreFetch rest, sent = .result names fetches ∧
      s.prepare allowed sent uuid setting =
        (.prepareResponse uuid out needsMoreFetch, ⟨rest, 1, uuid⟩) ∧
      Takes fetches out rest ∧ (needsMoreFetch = false → rest = none)) := by
  unfold Session.prepare
  by_cases hallowed : allowed = true
  · rw [if_pos hallowed]
    cases sent with
    | throws => exact Or.inr (Or.inl ⟨_, rfl, rfl⟩)
    | error message => exact Or.inr (Or.inl ⟨_, rfl, rfl⟩)
    | result names fetches =>
        dsimp only
        by_cases hnames : names = []
        · rw [if_pos hnames]
          exact Or.inr (Or.inl ⟨_, rfl, rfl⟩)
        · rw [if_neg hnames]
          cases setting with
          | none => exact Or.inr (Or.inr (Or.inl ⟨_, _, rfl, rfl⟩))
          | some maxChunks =>
              dsimp only
              obtain ⟨what, h, -⟩ | ⟨rest, error, h, -⟩ | ⟨h, hends, hlt⟩ |
                ⟨out, rest, h, htakes, hends, hlen⟩ :=
                createBatch_cases maxChunks.toNat fetches [] (Nat.zero_le _)
              · rw [h]
                exact Or.inr (Or.inr (Or.inl ⟨_, _, rfl, rfl⟩))
              · rw [h]
                exact Or.inr (Or.inr (Or.inl ⟨_, _, rfl, rfl⟩))
              · rw [h]
                exact Or.inr (Or.inr (Or.inr
                  ⟨names, fetches, _, _, none, rfl, rfl, ⟨rfl, hends⟩, fun _ => rfl⟩))
              · rw [h]
                refine Or.inr (Or.inr (Or.inr
                  ⟨names, fetches, out, _, some rest, rfl, rfl, ⟨htakes, hends⟩, fun hneeds => ?_⟩))
                simp [hlen] at hneeds
  · rw [if_neg hallowed]
    exact Or.inl ⟨_, rfl, rfl⟩

/-- A FETCH of the current result finds none, or is told of an error and leaves it, or fails on it, or
takes a batch from it. -/
theorem Session.fetch_cases (s : Session) (uuid : Nat) (pendingError : Option Bytes)
    (setting : Option UInt64) (huuid : s.resultUuid = uuid) :
    (s.duckdbQueryResult = none ∧ s.fetch uuid pendingError setting = (.fetchResponse [] none, s)) ∨
    (∃ fetches response, s.duckdbQueryResult = some fetches ∧ response.isError = true ∧
      (pendingError ≠ none ∨ setting = none) ∧ s.fetch uuid pendingError setting = (response, s)) ∨
    (∃ fetches maxChunks response rest, s.duckdbQueryResult = some fetches ∧
      response.isError = true ∧ setting = some maxChunks ∧ maxChunks ≠ 0 ∧ endsWell fetches = false ∧
      (rest = none ∨ ∃ what, rest = some [.throws what]) ∧
      s.fetch uuid pendingError setting = (response, { s with duckdbQueryResult := rest })) ∨
    (∃ fetches maxChunks out rest, s.duckdbQueryResult = some fetches ∧ pendingError = none ∧
      setting = some maxChunks ∧ Takes fetches out rest ∧
      (rest = none ∧ maxChunks ≠ 0 ∨ rest ≠ none ∧ out.length = maxChunks.toNat) ∧
      s.fetch uuid pendingError setting = (.fetchResponse out (some s.nextBatchIndex),
        { s with duckdbQueryResult := rest, nextBatchIndex := s.nextBatchIndex + 1 })) := by
  have htoNat : ∀ {n : UInt64}, n.toNat ≠ 0 → n ≠ 0 := by
    rintro n hn rfl
    exact hn rfl
  unfold Session.fetch
  rw [if_neg (not_not.mpr huuid)]
  cases hresult : s.duckdbQueryResult with
  | none => exact Or.inl ⟨rfl, rfl⟩
  | some fetches =>
      right
      cases pendingError with
      | some message => exact Or.inl ⟨fetches, _, rfl, rfl, Or.inl (by simp), rfl⟩
      | none =>
          cases setting with
          | none => exact Or.inl ⟨fetches, _, rfl, rfl, Or.inr rfl, rfl⟩
          | some maxChunks =>
              right
              dsimp only
              obtain ⟨what, h, hends, hne⟩ | ⟨rest, error, h, hends, hne⟩ | ⟨h, hends, hlt⟩ |
                ⟨out, rest, h, htakes, hends, hlen⟩ :=
                createBatch_cases maxChunks.toNat fetches [] (Nat.zero_le _)
              · rw [h]
                exact Or.inl ⟨fetches, maxChunks, _, _, rfl, rfl, rfl, htoNat hne, hends,
                  Or.inr ⟨what, rfl⟩, rfl⟩
              · rw [h]
                exact Or.inl ⟨fetches, maxChunks, _, _, rfl, rfl, rfl, htoNat hne, hends, Or.inl rfl,
                  rfl⟩
              · rw [h]
                exact Or.inr ⟨fetches, maxChunks, _, none, rfl, rfl, rfl, ⟨rfl, hends⟩,
                  Or.inl ⟨rfl, htoNat (by omega)⟩, rfl⟩
              · rw [h]
                exact Or.inr ⟨fetches, maxChunks, out, some rest, rfl, rfl, rfl, ⟨htakes, hends⟩,
                  Or.inr ⟨by simp, hlen⟩, rfl⟩

/-! ## Runs -/

/-- A result whose uuid a PREPARE response has told, and what was sent of it. -/
structure Issued where
  uuid : Nat
  stream : List Fetched
  prepared : List DataChunk
  /-- The FETCH responses with a batch index, as they were sent. -/
  fetched : List (Nat × List DataChunk) := []
  /-- Some response has told the client that the result is finished. -/
  toldFinished : Bool
deriving Repr

/-- The chunks of the responses in the order of their batch indexes. -/
def inBatchOrder (fetched : List (Nat × List DataChunk)) : List DataChunk :=
  (fetched.mergeSort fun a b => a.1 ≤ b.1).flatMap Prod.snd

/-- What the client has of the result. -/
def Issued.delivered (i : Issued) : List DataChunk := i.prepared ++ inBatchOrder i.fetched

/-- The client has all of it. -/
def Issued.Whole (i : Issued) : Prop := i.delivered = chunksOf i.stream ∧ endsWell i.stream = true

/-- What an answer to a FETCH for `uuid` adds. -/
def Issued.answered (uuid : Nat) (response : Response) (i : Issued) : Issued :=
  match response with
  | .fetchResponse results batchIndex =>
      if i.uuid = uuid then
        { i with
          fetched := i.fetched ++ (batchIndex.map fun n => (n, results)).toList
          toldFinished := i.toldFinished || results.isEmpty }
      else i
  | _ => i

/-- A session, and what has happened to its results. -/
structure State where
  session : Session := {}
  issued : List Issued := []
  /-- The uuids so far, the nil one included, which is the first of a session. -/
  generated : List Nat := [0]
  /-- The result of the current uuid was dropped before its end. -/
  dropped : Bool := false
deriving Repr

/-- The two messages, with what the callback, the engine and the generator answer. -/
inductive Action where
  | prepare (allowed : Bool) (sent : Sent) (uuid : Nat) (setting : Option UInt64)
  | fetch (uuid : Nat) (pendingError : Option Bytes) (setting : Option UInt64)
deriving Repr

/-- The session had a result that was not at its end, and has none any more. -/
def drops (before after : Session) : Bool :=
  match before.duckdbQueryResult, after.duckdbQueryResult with
  | some fetches, none => !atEnd fetches
  | _, _ => false

/-- The state after a message; a random uuid is a new one. -/
def step (s : State) : Action → Option State
  | .prepare allowed sent uuid setting =>
      if uuid ∈ s.generated then none
      else
        match s.session.prepare allowed sent uuid setting, sent with
        | (.prepareResponse _ results needsMoreFetch, session), .result _ fetches =>
            some ⟨session, ⟨uuid, fetches, results, [], !needsMoreFetch⟩ :: s.issued,
              uuid :: s.generated, false⟩
        | (_, session), _ =>
            some { s with
              session
              generated := uuid :: s.generated
              dropped := s.dropped || drops s.session session }
  | .fetch uuid pendingError setting =>
      match s.session.fetch uuid pendingError setting with
      | (response, session) =>
          some { s with
            session
            issued := s.issued.map (Issued.answered uuid response)
            dropped := s.dropped || (response.isError && drops s.session session) }

/-- Every result is delivered in order, without a gap, and told to be finished only when all of it was
delivered. -/
def DeliveredCompletely (s : State) : Prop :=
  ∀ i ∈ s.issued, i.delivered <+: chunksOf i.stream ∧ (i.toldFinished = true → i.Whole)

/-- A FETCH for the current result finds it there or delivered to its end, and when there is something
left of it the setting is not 0. -/
def Served (s : State) : Action → Prop
  | .prepare _ _ _ _ => True
  | .fetch uuid pendingError setting =>
      uuid = s.session.resultUuid → (∃ i ∈ s.issued, i.uuid = uuid) →
        (s.session.duckdbQueryResult = none → s.dropped = false) ∧
        (∀ rest, s.session.duckdbQueryResult = some rest → pendingError = none → setting = some 0 →
          atEnd rest = true)

/-! ## The invariant -/

/-- What holds of the result a FETCH of the current uuid is for. -/
structure Current (s : State) (i : Issued) : Prop where
  left : ∀ rest, s.session.duckdbQueryResult = some rest → s.dropped = false ∧
    i.delivered ++ chunksOf rest <+: chunksOf i.stream ∧ endsWell rest = endsWell i.stream ∧
    (endsWell rest = true → i.delivered ++ chunksOf rest = chunksOf i.stream)
  absent : s.session.duckdbQueryResult = none → (s.dropped = false ↔ i.Whole)
  order : i.fetched.Pairwise fun a b => a.1 < b.1
  below : ∀ batch ∈ i.fetched, batch.1 < s.session.nextBatchIndex

structure Inv (s : State) : Prop where
  uuid : s.session.resultUuid ∈ s.generated
  known : ∀ i ∈ s.issued, i.uuid ∈ s.generated
  inOrder : ∀ i ∈ s.issued, i.delivered <+: chunksOf i.stream
  current : ∀ i ∈ s.issued, i.uuid = s.session.resultUuid → Current s i

theorem atEnd_iff {fetches : List Fetched} :
    atEnd fetches = true ↔ chunksOf fetches = [] ∧ endsWell fetches = true := by
  simp [atEnd]

theorem Current.whole_iff {s : State} {i : Issued} (hi : Current s i) {rest : List Fetched}
    (hrest : s.session.duckdbQueryResult = some rest) : i.Whole ↔ atEnd rest = true := by
  obtain ⟨-, -, hends, hwhole⟩ := hi.left rest hrest
  rw [atEnd_iff, Issued.Whole, ← hends]
  constructor
  · rintro ⟨hall, hwell⟩
    have heq := hwhole hwell
    rw [hall] at heq
    exact ⟨by simpa using heq, hwell⟩
  · rintro ⟨hnone, hwell⟩
    have heq := hwhole hwell
    rw [hnone, List.append_nil] at heq
    exact ⟨heq, hwell⟩

/-- A response with the next index comes last. -/
theorem inBatchOrder_append {fetched : List (Nat × List DataChunk)} {n : Nat} {out : List DataChunk}
    (horder : fetched.Pairwise fun a b => a.1 < b.1) (hbelow : ∀ batch ∈ fetched, batch.1 < n) :
    inBatchOrder (fetched ++ [(n, out)]) = inBatchOrder fetched ++ out := by
  have hsort : ∀ {l : List (Nat × List DataChunk)}, (l.Pairwise fun a b => a.1 < b.1) →
      inBatchOrder l = l.flatMap Prod.snd := by
    intro l hl
    unfold inBatchOrder
    rw [List.mergeSort_of_pairwise (hl.imp fun h => by simpa using Nat.le_of_lt h)]
  rw [hsort horder, hsort, List.flatMap_append]
  · simp
  · rw [List.pairwise_append]
    refine ⟨horder, List.pairwise_singleton _ _, ?_⟩
    intro a ha b hb
    rw [List.mem_singleton.mp hb]
    exact hbelow a ha

/-! ## PREPARE -/

theorem drops_self (s : Session) : drops s s = false := by
  unfold drops
  cases s.duckdbQueryResult <;> rfl

/-- What a PREPARE does to the state. -/
theorem step_prepare_cases {s t : State} {allowed : Bool} {sent : Sent} {uuid : Nat}
    {setting : Option UInt64} (h : step s (.prepare allowed sent uuid setting) = some t) :
    uuid ∉ s.generated ∧
    (t = { s with generated := uuid :: s.generated } ∨
      t = { s with
        session := { s.session with duckdbQueryResult := none }
        generated := uuid :: s.generated
        dropped := s.dropped || drops s.session { s.session with duckdbQueryResult := none } } ∨
      (∃ rest dropped,
        t = { s with session := ⟨rest, 1, uuid⟩, generated := uuid :: s.generated, dropped }) ∨
      (∃ fetches out needsMoreFetch rest, Takes fetches out rest ∧
        (needsMoreFetch = false → rest = none) ∧
        t = ⟨⟨rest, 1, uuid⟩, ⟨uuid, fetches, out, [], !needsMoreFetch⟩ :: s.issued,
          uuid :: s.generated, false⟩)) := by
  unfold step at h
  dsimp only at h
  split at h
  · cases h
  · rename_i hfresh
    refine ⟨hfresh, ?_⟩
    have herror : ∀ {response : Response} {session : Session}, response.isError = true →
        s.session.prepare allowed sent uuid setting = (response, session) →
        t = { s with
          session
          generated := uuid :: s.generated
          dropped := s.dropped || drops s.session session } := by
      intro response session hresponse heq
      rw [heq] at h
      cases response with
      | errorResponse message => exact (Option.some.inj h).symm
      | exception => exact (Option.some.inj h).symm
      | prepareResponse uuid results needsMoreFetch => cases hresponse
      | fetchResponse results batchIndex => cases hresponse
    obtain ⟨response, hresponse, heq⟩ | ⟨response, hresponse, heq⟩ | ⟨response, rest, hresponse, heq⟩ |
      ⟨names, fetches, out, needsMoreFetch, rest, rfl, heq, htakes, hneeds⟩ :=
      s.session.prepare_cases allowed sent uuid setting
    · left
      rw [herror hresponse heq, drops_self, Bool.or_false]
    · exact Or.inr (Or.inl (herror hresponse heq))
    · exact Or.inr (Or.inr (Or.inl ⟨rest, _, herror hresponse heq⟩))
    · rw [heq] at h
      exact Or.inr (Or.inr (Or.inr
        ⟨fetches, out, needsMoreFetch, rest, htakes, hneeds, (Option.some.inj h).symm⟩))

/-- Dropping the result is noticed unless it was at its end. -/
theorem Current.drop {s : State} {i : Issued} (hi : Current s i) (generated : List Nat) :
    Current { s with
      session := { s.session with duckdbQueryResult := none }
      generated
      dropped := s.dropped || drops s.session { s.session with duckdbQueryResult := none } } i where
  left rest hrest := by cases hrest
  absent _ := by
    dsimp only
    cases hresult : s.session.duckdbQueryResult with
    | none =>
        have hdrops : drops s.session { s.session with duckdbQueryResult := none } = false := by
          simp [drops, hresult]
        rw [hdrops, Bool.or_false]
        exact hi.absent hresult
    | some rest =>
        have hdrops : drops s.session { s.session with duckdbQueryResult := none } = !atEnd rest := by
          simp [drops, hresult]
        rw [hdrops, (hi.left rest hresult).1, Bool.false_or, Bool.not_eq_false']
        exact (hi.whole_iff hresult).symm
  order := hi.order
  below := hi.below

/-- The result that has just been prepared. -/
theorem current_prepared {fetches : List Fetched} {out : List DataChunk}
    {rest : Option (List Fetched)} (htakes : Takes fetches out rest) (uuid : Nat)
    (issued : List Issued) (generated : List Nat) (toldFinished : Bool) :
    Current ⟨⟨rest, 1, uuid⟩, issued, generated, false⟩ ⟨uuid, fetches, out, [], toldFinished⟩ := by
  have hdelivered : Issued.delivered ⟨uuid, fetches, out, [], toldFinished⟩ = out := by
    simp [Issued.delivered, inBatchOrder]
  constructor
  · rintro left hleft
    dsimp only at hleft
    subst hleft
    rw [hdelivered]
    exact ⟨rfl, htakes.1 ▸ List.prefix_rfl, htakes.2, fun _ => htakes.1⟩
  · intro hnone
    dsimp only at hnone
    subst hnone
    exact iff_of_true rfl ⟨hdelivered.trans htakes.1, htakes.2⟩
  · exact List.Pairwise.nil
  · intro batch hbatch
    cases hbatch

theorem inv_prepare {s t : State} {allowed : Bool} {sent : Sent} {uuid : Nat}
    {setting : Option UInt64} (hs : Inv s) (h : step s (.prepare allowed sent uuid setting) = some t) :
    Inv t := by
  obtain ⟨hfresh, rfl | rfl | ⟨rest, dropped, rfl⟩ | ⟨fetches, out, needsMoreFetch, rest, htakes, -, rfl⟩⟩ :=
    step_prepare_cases h
  · exact
      { uuid := List.mem_cons_of_mem _ hs.uuid
        known := fun i hi => List.mem_cons_of_mem _ (hs.known i hi)
        inOrder := hs.inOrder
        current := fun i hi huuid =>
          have hcurrent := hs.current i hi huuid
          ⟨hcurrent.left, hcurrent.absent, hcurrent.order, hcurrent.below⟩ }
  · exact
      { uuid := List.mem_cons_of_mem _ hs.uuid
        known := fun i hi => List.mem_cons_of_mem _ (hs.known i hi)
        inOrder := hs.inOrder
        current := fun i hi huuid => (hs.current i hi huuid).drop _ }
  · exact
      { uuid := List.mem_cons_self
        known := fun i hi => List.mem_cons_of_mem _ (hs.known i hi)
        inOrder := hs.inOrder
        current := fun i hi huuid => by
          have huuid : i.uuid = uuid := huuid
          exact absurd (huuid ▸ hs.known i hi) hfresh }
  · have hnew := current_prepared htakes uuid
    constructor
    · exact List.mem_cons_self
    · intro i hi
      obtain rfl | hold := List.mem_cons.mp hi
      · exact List.mem_cons_self
      · exact List.mem_cons_of_mem _ (hs.known i hold)
    · intro i hi
      obtain rfl | hold := List.mem_cons.mp hi
      · cases rest with
        | none => simp [Issued.delivered, inBatchOrder, htakes.1]
        | some rest => simp [Issued.delivered, inBatchOrder, ← htakes.1]
      · exact hs.inOrder i hold
    · intro i hi huuid
      obtain rfl | hold := List.mem_cons.mp hi
      · exact hnew _ _ _
      · have huuid : i.uuid = uuid := huuid
        exact absurd (huuid ▸ hs.known i hold) hfresh

/-- A PREPARE tells the client that its result is finished only when it is. -/
theorem delivered_prepare {s t : State} {allowed : Bool} {sent : Sent} {uuid : Nat}
    {setting : Option UInt64} (hs : DeliveredCompletely s)
    (h : step s (.prepare allowed sent uuid setting) = some t) : DeliveredCompletely t := by
  obtain ⟨-, rfl | rfl | ⟨rest, dropped, rfl⟩ | ⟨fetches, out, needsMoreFetch, rest, htakes, hneeds, rfl⟩⟩ :=
    step_prepare_cases h
  · exact hs
  · exact hs
  · exact hs
  · intro i hi
    obtain rfl | hold := List.mem_cons.mp hi
    · have hdelivered : Issued.delivered ⟨uuid, fetches, out, [], !needsMoreFetch⟩ = out := by
        simp [Issued.delivered, inBatchOrder]
      rw [Issued.Whole, hdelivered]
      cases rest with
      | none => exact ⟨htakes.1 ▸ List.prefix_rfl, fun _ => htakes⟩
      | some rest =>
          refine ⟨htakes.1 ▸ List.prefix_append out _, fun htold => ?_⟩
          have hnone := hneeds (by simpa using htold)
          cases hnone
    · exact hs i hold

/-! ## FETCH -/

@[simp] theorem answered_error {uuid : Nat} {response : Response} (h : response.isError = true) :
    Issued.answered uuid response = id := by
  funext i
  cases response with
  | prepareResponse uuid results needsMoreFetch => cases h
  | fetchResponse results batchIndex => cases h
  | _ => rfl

theorem answered_other {uuid : Nat} {response : Response} {i : Issued} (h : i.uuid ≠ uuid) :
    i.answered uuid response = i := by
  unfold Issued.answered
  cases response <;> simp [h]

theorem uuid_answered (uuid : Nat) (response : Response) (i : Issued) :
    (i.answered uuid response).uuid = i.uuid := by
  unfold Issued.answered
  cases response with
  | fetchResponse results batchIndex =>
      dsimp only
      split <;> rfl
  | _ => rfl

/-- What a FETCH does to the state: it is answered with an error and leaves it; or with nothing, when
there is no result; or it fails on the result; or it takes a batch from it. -/
theorem step_fetch_cases {s t : State} {uuid : Nat} {pendingError : Option Bytes}
    {setting : Option UInt64} (h : step s (.fetch uuid pendingError setting) = some t) :
    (t = s ∧ (s.session.resultUuid = uuid → ∃ fetches, s.session.duckdbQueryResult = some fetches ∧
      (pendingError ≠ none ∨ setting = none))) ∨
    (s.session.resultUuid = uuid ∧
      ((s.session.duckdbQueryResult = none ∧
        t = { s with issued := s.issued.map (Issued.answered uuid (.fetchResponse [] none)) }) ∨
      (∃ fetches maxChunks rest, s.session.duckdbQueryResult = some fetches ∧
        setting = some maxChunks ∧ maxChunks ≠ 0 ∧ endsWell fetches = false ∧
        (rest = none ∨ ∃ what, rest = some [.throws what]) ∧
        t = { s with
          session := { s.session with duckdbQueryResult := rest }
          dropped := s.dropped || drops s.session { s.session with duckdbQueryResult := rest } }) ∨
      (∃ fetches maxChunks out rest, s.session.duckdbQueryResult = some fetches ∧
        pendingError = none ∧ setting = some maxChunks ∧ Takes fetches out rest ∧
        (rest = none ∧ maxChunks ≠ 0 ∨ rest ≠ none ∧ out.length = maxChunks.toNat) ∧
        t = { s with
          session := { s.session with
            duckdbQueryResult := rest
            nextBatchIndex := s.session.nextBatchIndex + 1 }
          issued := s.issued.map
            (Issued.answered uuid (.fetchResponse out (some s.session.nextBatchIndex))) }))) := by
  -- the step is determined by what `fetch` answers
  have hstep : ∀ {response : Response} {session : Session},
      s.session.fetch uuid pendingError setting = (response, session) →
      t = { s with
        session
        issued := s.issued.map (Issued.answered uuid response)
        dropped := s.dropped || (response.isError && drops s.session session) } := by
    intro response session heq
    unfold step at h
    dsimp only at h
    rw [heq] at h
    exact (Option.some.inj h).symm
  have herror : ∀ {response : Response} {session : Session}, response.isError = true →
      s.session.fetch uuid pendingError setting = (response, session) →
      t = { s with session, dropped := s.dropped || drops s.session session } := by
    intro response session hresponse heq
    rw [hstep heq, answered_error hresponse, List.map_id, hresponse, Bool.true_and]
  have hfetched : ∀ {results : List DataChunk} {batchIndex : Option Nat},
      (Response.fetchResponse results batchIndex).isError = false := by
    intro results batchIndex
    rfl
  -- another result was prepared since: the request is refused and nothing changes
  by_cases huuid : s.session.resultUuid = uuid
  · obtain ⟨hnone, heq⟩ | ⟨fetches, response, hresult, hresponse, hcause, heq⟩ |
      ⟨fetches, maxChunks, response, rest, hresult, hresponse, hsetting, hne, hends, hrest, heq⟩ |
      ⟨fetches, maxChunks, out, rest, hresult, hpending, hsetting, htakes, hrest, heq⟩ :=
      s.session.fetch_cases uuid pendingError setting huuid
    · refine Or.inr ⟨huuid, Or.inl ⟨hnone, ?_⟩⟩
      rw [hstep heq, hfetched, Bool.false_and, Bool.or_false]
    · refine Or.inl ⟨?_, fun _ => ⟨fetches, hresult, hcause⟩⟩
      rw [herror hresponse heq, drops_self, Bool.or_false]
    · exact Or.inr ⟨huuid, Or.inr (Or.inl
        ⟨fetches, maxChunks, rest, hresult, hsetting, hne, hends, hrest, herror hresponse heq⟩)⟩
    · refine Or.inr ⟨huuid, Or.inr (Or.inr
        ⟨fetches, maxChunks, out, rest, hresult, hpending, hsetting, htakes, hrest, ?_⟩)⟩
      rw [hstep heq, hfetched, Bool.false_and, Bool.or_false]
  · refine Or.inl ⟨?_, fun h => absurd h huuid⟩
    have heq : s.session.fetch uuid pendingError setting =
        (.errorResponse (lit "Result has been closed"), s.session) := by
      unfold Session.fetch
      rw [if_pos huuid]
    rw [herror rfl heq, drops_self, Bool.or_false]

/-- A batch that was taken from the current result. -/
theorem Current.take {s : State} {i : Issued} (hi : Current s i) {fetches : List Fetched}
    (hresult : s.session.duckdbQueryResult = some fetches) {out : List DataChunk}
    {rest : Option (List Fetched)} (htakes : Takes fetches out rest) (issued : List Issued)
    (toldFinished : Bool) :
    Issued.delivered { i with
        fetched := i.fetched ++ [(s.session.nextBatchIndex, out)], toldFinished } = i.delivered ++ out ∧
      i.delivered ++ out <+: chunksOf i.stream ∧
      Current { s with
        session := { s.session with
          duckdbQueryResult := rest
          nextBatchIndex := s.session.nextBatchIndex + 1 }
        issued }
        { i with fetched := i.fetched ++ [(s.session.nextBatchIndex, out)], toldFinished } := by
  have hdelivered : Issued.delivered { i with
      fetched := i.fetched ++ [(s.session.nextBatchIndex, out)], toldFinished } = i.delivered ++ out := by
    simp only [Issued.delivered, inBatchOrder_append hi.order hi.below, List.append_assoc]
  obtain ⟨hdropped, hprefix, hends, hwhole⟩ := hi.left fetches hresult
  refine ⟨hdelivered, ?_, ?_⟩
  · refine List.IsPrefix.trans ?_ hprefix
    cases rest with
    | none =>
        exact htakes.1 ▸ List.prefix_rfl
    | some rest =>
        rw [← htakes.1, ← List.append_assoc]
        exact List.prefix_append _ _
  · constructor
    · rintro left hleft
      dsimp only at hleft
      subst hleft
      rw [hdelivered, List.append_assoc, htakes.1, htakes.2]
      exact ⟨hdropped, hprefix, hends, hwhole⟩
    · intro hnone
      dsimp only at hnone
      subst hnone
      -- nothing is left: the stream is delivered whole and ended well
      refine iff_of_true hdropped ⟨?_, ?_⟩
      · rw [hdelivered, htakes.1]
        exact hwhole htakes.2
      · exact hends.symm.trans htakes.2
    · refine List.pairwise_append.mpr ⟨hi.order, List.pairwise_singleton _ _, ?_⟩
      intro a ha b hb
      rw [List.mem_singleton.mp hb]
      exact hi.below a ha
    · intro batch hbatch
      obtain hold | hnew := List.mem_append.mp hbatch
      · exact Nat.lt_succ_of_lt (hi.below batch hold)
      · rw [List.mem_singleton.mp hnew]
        exact Nat.lt_succ_self _

/-- A failure of the stream leaves nothing that could be taken for its end. -/
theorem Current.fail {s : State} {i : Issued} (hi : Current s i) {fetches : List Fetched}
    (hresult : s.session.duckdbQueryResult = some fetches) (hends : endsWell fetches = false)
    {rest : Option (List Fetched)} (hrest : rest = none ∨ ∃ what, rest = some [.throws what]) :
    Current { s with
      session := { s.session with duckdbQueryResult := rest }
      dropped := s.dropped || drops s.session { s.session with duckdbQueryResult := rest } } i := by
  obtain ⟨hdropped, hprefix, hsame, -⟩ := hi.left fetches hresult
  obtain rfl | ⟨what, rfl⟩ := hrest
  · exact hi.drop s.generated
  · constructor
    · rintro left hleft
      cases hleft
      refine ⟨by simp [hdropped, drops, hresult], ?_, ?_, fun hwell => by cases hwell⟩
      · show i.delivered ++ [] <+: chunksOf i.stream
        rw [List.append_nil]
        exact (List.prefix_append _ _).trans hprefix
      · rw [← hsame, hends]
        rfl
    · intro hnone
      cases hnone
    · exact hi.order
    · exact hi.below

theorem answered_none {uuid : Nat} {i : Issued} (h : i.uuid = uuid) :
    i.answered uuid (.fetchResponse [] none) = { i with toldFinished := true } := by
  simp [Issued.answered, h]

theorem answered_some {uuid n : Nat} {out : List DataChunk} {i : Issued} (h : i.uuid = uuid) :
    i.answered uuid (.fetchResponse out (some n)) =
      { i with
        fetched := i.fetched ++ [(n, out)]
        toldFinished := i.toldFinished || out.isEmpty } := by
  simp [Issued.answered, h]

theorem inv_fetch {s t : State} {uuid : Nat} {pendingError : Option Bytes} {setting : Option UInt64}
    (hs : Inv s) (h : step s (.fetch uuid pendingError setting) = some t) : Inv t := by
  obtain ⟨rfl, -⟩ | ⟨huuid, ⟨hnone, rfl⟩ | ⟨fetches, maxChunks, rest, hresult, -, -, hends, hrest, rfl⟩ |
    ⟨fetches, maxChunks, out, rest, hresult, -, -, htakes, -, rfl⟩⟩ := step_fetch_cases h
  · exact hs
  · constructor
    · exact hs.uuid
    · intro j hj
      obtain ⟨i, hi, rfl⟩ := List.mem_map.mp hj
      rw [uuid_answered]
      exact hs.known i hi
    · intro j hj
      obtain ⟨i, hi, rfl⟩ := List.mem_map.mp hj
      by_cases hiu : i.uuid = uuid
      · rw [answered_none hiu]
        exact hs.inOrder i hi
      · rw [answered_other hiu]
        exact hs.inOrder i hi
    · intro j hj hcurrent
      obtain ⟨i, hi, rfl⟩ := List.mem_map.mp hj
      rw [uuid_answered] at hcurrent
      have hiu : i.uuid = uuid := hcurrent.trans huuid
      have hold := hs.current i hi hcurrent
      rw [answered_none hiu]
      exact ⟨hold.left, hold.absent, hold.order, hold.below⟩
  · exact
      { uuid := hs.uuid
        known := hs.known
        inOrder := hs.inOrder
        current := fun i hi hcurrent => (hs.current i hi hcurrent).fail hresult hends hrest }
  · constructor
    · exact hs.uuid
    · intro j hj
      obtain ⟨i, hi, rfl⟩ := List.mem_map.mp hj
      rw [uuid_answered]
      exact hs.known i hi
    · intro j hj
      obtain ⟨i, hi, rfl⟩ := List.mem_map.mp hj
      by_cases hiu : i.uuid = uuid
      · obtain ⟨hdelivered, hprefix, -⟩ := (hs.current i hi (hiu.trans huuid.symm)).take hresult htakes
          [] (i.toldFinished || out.isEmpty)
        rw [answered_some hiu, hdelivered]
        exact hprefix
      · rw [answered_other hiu]
        exact hs.inOrder i hi
    · intro j hj hcurrent
      obtain ⟨i, hi, rfl⟩ := List.mem_map.mp hj
      rw [uuid_answered] at hcurrent
      have hiu : i.uuid = uuid := hcurrent.trans huuid
      rw [answered_some hiu]
      -- the chunks taken go behind those delivered
      exact ((hs.current i hi hcurrent).take hresult htakes _ _).2.2

/-- A response without chunks is right when the client has everything. -/
theorem whole_take {s : State} {i : Issued} (hi : Current s i) {fetches : List Fetched}
    (hresult : s.session.duckdbQueryResult = some fetches) {rest : Option (List Fetched)}
    (htakes : Takes fetches [] rest) (toldFinished : Bool) :
    Issued.Whole { i with
      fetched := i.fetched ++ [(s.session.nextBatchIndex, [])], toldFinished } ↔ i.Whole := by
  have hdelivered := (hi.take hresult htakes [] toldFinished).1
  rw [List.append_nil] at hdelivered
  unfold Issued.Whole
  rw [hdelivered]

/-- There is nothing to take from a result at its end. -/
theorem takes_atEnd {fetches : List Fetched} (hend : atEnd fetches = true) {out : List DataChunk}
    {rest : Option (List Fetched)} (htakes : Takes fetches out rest) : out = [] := by
  have hnone := (atEnd_iff.mp hend).1
  cases rest with
  | none => exact htakes.1.trans hnone
  | some rest =>
      have heq := htakes.1
      rw [hnone] at heq
      exact (List.append_eq_nil_iff.mp heq).1

/-- **One FETCH.** In a state in which all is well it stays so exactly when the FETCH is served. -/
theorem delivered_fetch_iff {s t : State} {uuid : Nat} {pendingError : Option Bytes}
    {setting : Option UInt64} (hs : Inv s) (hall : DeliveredCompletely s)
    (h : step s (.fetch uuid pendingError setting) = some t) :
    DeliveredCompletely t ↔ Served s (.fetch uuid pendingError setting) := by
  obtain ⟨rfl, hcause⟩ | ⟨huuid, ⟨hnone, rfl⟩ |
    ⟨fetches, maxChunks, rest, hresult, hsetting, hne, -, -, rfl⟩ |
    ⟨fetches, maxChunks, out, rest, hresult, hpending, hsetting, htakes, hrest, rfl⟩⟩ :=
    step_fetch_cases h
  · -- An error, and nothing else.
    refine iff_of_true hall fun heq _ => ?_
    obtain ⟨fetches, hresult, hcause⟩ := hcause heq.symm
    refine ⟨fun hnone => ?_, fun rest _ hpending hsetting => ?_⟩
    · rw [hnone] at hresult
      cases hresult
    · rw [hsetting] at hcause
      exact absurd hpending (hcause.resolve_right (by simp))
  · -- No result: the client takes it for the end.
    constructor
    · rintro hafter heq ⟨i, hi, hiu⟩
      refine ⟨fun _ => ?_, fun rest hrest => ?_⟩
      · have hmem := List.mem_map_of_mem (f := Issued.answered uuid (.fetchResponse [] none)) hi
        have htold := (hafter _ hmem).2
        rw [answered_none hiu] at htold
        exact ((hs.current i hi (hiu.trans heq)).absent hnone).mpr (htold rfl)
      · rw [hnone] at hrest
        cases hrest
    · intro hserved j hj
      obtain ⟨i, hi, rfl⟩ := List.mem_map.mp hj
      by_cases hiu : i.uuid = uuid
      · have hdropped := (hserved huuid.symm ⟨i, hi, hiu⟩).1 hnone
        have hwhole := ((hs.current i hi (hiu.trans huuid.symm)).absent hnone).mp hdropped
        rw [answered_none hiu]
        exact ⟨(hall i hi).1, fun _ => hwhole⟩
      · rw [answered_other hiu]
        exact hall i hi
  · -- A failure is an error.
    refine iff_of_true hall fun _ _ => ⟨fun hnone => ?_, fun rest _ _ hzero => ?_⟩
    · rw [hnone] at hresult
      cases hresult
    · rw [hsetting] at hzero
      exact absurd (Option.some.inj hzero) hne
  · -- A batch.
    constructor
    · rintro hafter heq ⟨i, hi, hiu⟩
      refine ⟨fun hnone => ?_, fun left hleft _ hzero => ?_⟩
      · rw [hnone] at hresult
        cases hresult
      · rw [hsetting] at hzero
        have hzero : maxChunks = 0 := Option.some.inj hzero
        have hout : out = [] := by
          obtain ⟨-, hne⟩ | ⟨-, hlen⟩ := hrest
          · exact absurd hzero hne
          · rw [hzero] at hlen
            exact List.eq_nil_of_length_eq_zero hlen
        subst hout
        have hcurrent := hs.current i hi (hiu.trans heq)
        have hmem := List.mem_map_of_mem
          (f := Issued.answered uuid (.fetchResponse [] (some s.session.nextBatchIndex))) hi
        have htold := (hafter _ hmem).2
        rw [answered_some hiu] at htold
        have hwhole := (whole_take hcurrent hresult htakes _).mp (htold (by simp))
        exact (hcurrent.whole_iff hleft).mp hwhole
    · intro hserved j hj
      obtain ⟨i, hi, rfl⟩ := List.mem_map.mp hj
      by_cases hiu : i.uuid = uuid
      · have hcurrent := hs.current i hi (hiu.trans huuid.symm)
        obtain ⟨hdelivered, hprefix, -⟩ := hcurrent.take hresult htakes [] (i.toldFinished || out.isEmpty)
        rw [answered_some hiu]
        refine ⟨by rw [hdelivered]; exact hprefix, fun htold => ?_⟩
        have hend : atEnd fetches = true := by
          obtain htold | hempty := Bool.or_eq_true_iff.mp htold
          · exact (hcurrent.whole_iff hresult).mp ((hall i hi).2 htold)
          · have hout : out = [] := by simpa using hempty
            obtain ⟨hnone, -⟩ | ⟨-, hlen⟩ := hrest
            · rw [hnone, hout] at htakes
              exact atEnd_iff.mpr ⟨htakes.1.symm, htakes.2⟩
            · have hzero : maxChunks = 0 := by
                apply UInt64.toNat_inj.mp
                rw [← hlen, hout]
                rfl
              rw [hzero] at hsetting
              exact (hserved huuid.symm ⟨i, hi, hiu⟩).2 fetches hresult hpending hsetting
        have hout := takes_atEnd hend htakes
        subst hout
        exact (whole_take hcurrent hresult htakes _).mpr ((hcurrent.whole_iff hresult).mpr hend)
      · rw [answered_other hiu]
        exact hall i hi

/-! ## The result -/

/-- **When results are delivered completely.** In a run of PREPAREs and FETCHes, refused and failed ones
included, every result is delivered in order and without a gap, and told to be finished only when all of
it was delivered, exactly when every FETCH for a result finds it there or delivered to its end, and the
setting is not 0 when something of it is left. -/
theorem delivered_iff {as : List Action} {s : State} (hrun : run step {} as = some s) :
    Always step DeliveredCompletely {} as ↔ Meets step Served {} as := by
  have hinv : ∀ s a t, Inv s → step s a = some t → Inv t := by
    intro s a t hs h
    cases a with
    | prepare allowed sent uuid setting => exact inv_prepare hs h
    | fetch uuid pendingError setting => exact inv_fetch hs h
  refine always_iff_meets hinv (fun s a t hs hall h => ?_) ?_ ?_ hrun
  · cases a with
    | prepare allowed sent uuid setting => exact iff_of_true (delivered_prepare hall h) trivial
    | fetch uuid pendingError setting => exact delivered_fetch_iff hs hall h
  · exact
      { uuid := List.mem_singleton_self 0
        known := fun i hi => nomatch hi
        inOrder := fun i hi => nomatch hi
        current := fun i hi => nomatch hi }
  · intro i hi
    cases hi

/-- Two rows of a query in two chunks. -/
def twoChunks : List Fetched :=
  [.chunk [[.leaf (.scalar .bigint) (.int 1)]], .chunk [[.leaf (.scalar .bigint) (.int 2)]]]

/-- Both of them are fetched, with one chunk for a response. -/
theorem delivered_iff_twoChunks :
    let as : List Action :=
      [.prepare true (.result [lit "i"] twoChunks) 1 (some 1), .fetch 1 none (some 1),
        .fetch 1 none (some 1)]
    Always step DeliveredCompletely {} as ↔ Meets step Served {} as := by
  intro as
  exact delivered_iff (s := (run step {} as).getD {}) rfl

/-- A query that cannot be parsed is prepared before the second one is fetched, and the client is told
that there is none. -/
theorem truncated_twoChunks :
    ¬ ∀ (as : List Action) (s : State), run step {} as = some s →
      Always step DeliveredCompletely {} as := by
  intro h
  let as : List Action :=
    [.prepare true (.result [lit "i"] twoChunks) 1 (some 1),
      .prepare true (.error (lit "Parser Error: syntax error at or near \"SELEC\"")) 2 (some 1),
      .fetch 1 none (some 1)]
  have hrun : run step {} as = some ((run step {} as).getD {}) := rfl
  have hend : ∃ i ∈ ((run step {} as).getD {}).issued,
      i.toldFinished = true ∧ i.prepared = [[[.leaf (.scalar .bigint) (.int 1)]]] ∧ i.fetched = [] ∧
        i.stream = twoChunks :=
    ⟨_, List.mem_singleton_self _, rfl, rfl, rfl, rfl⟩
  obtain ⟨i, hi, htold, hprepared, hfetched, hstream⟩ := hend
  have hwhole := (((h as _ hrun).of_run hrun) i hi).2 htold
  have hlen := congrArg List.length hwhole.1
  rw [Issued.delivered, hprepared, hfetched, hstream] at hlen
  simp [inBatchOrder, twoChunks, chunksOf] at hlen

end Harbor.Quack
