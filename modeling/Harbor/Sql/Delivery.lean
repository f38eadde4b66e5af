import Harbor.Sql.Protocol
import Harbor.Sql.OneShot

set_option autoImplicit false

/-! # The shapes deliver the same rows

Without failures and interrupts, the stream in row mode, the stream in chunk mode and the one-shot
response carry the same rows: the first ones, up to the cap. The cap is applied in two places with
different comparisons; `kept` is what either of them keeps of the rest of a result when `n` rows are
there already.
-/

namespace Harbor

open Json Encoder Ndjson OneShot

/-! ## The rows that are kept -/

/-- What a cap of `maxRows` (`0` for none) leaves of `rows` behind `n` other rows. -/
def kept {α : Type} (maxRows n : Nat) (rows : List α) : List α :=
  if maxRows = 0 then rows else rows.take (maxRows - n)

/-- Something is cut off. -/
def cut (maxRows n : Nat) : Bool := decide (0 < maxRows ∧ maxRows < n)

theorem kept_of_fits {α : Type} {maxRows n : Nat} {chunk : List α} (rest : List α)
    (h : 0 < maxRows → n + chunk.length ≤ maxRows) :
    kept maxRows n (chunk ++ rest) = chunk ++ kept maxRows (n + chunk.length) rest := by
  rw [kept, kept]
  split_ifs with hzero
  · rfl
  · have := h (by omega)
    rw [List.take_append, List.take_of_length_le (by omega), Nat.sub_sub]

theorem kept_of_full {α : Type} {maxRows n : Nat} {chunk : List α} (rest : List α)
    (hpos : 0 < maxRows) (h : maxRows ≤ n + chunk.length) :
    kept maxRows n (chunk ++ rest) = chunk.take (maxRows - n) := by
  rw [kept, if_neg (by omega), List.take_append_of_le_length (by omega)]

theorem length_kept_zero {α : Type} (maxRows : Nat) (rows : List α) :
    (kept maxRows 0 rows).length = if maxRows = 0 then rows.length else min rows.length maxRows := by
  rw [kept]
  split_ifs
  · rfl
  · rw [List.length_take, Nat.sub_zero, Nat.min_comm]

/-! ## Streams -/

variable {text : DuckText} {columns : Columns} {sessionId : Bytes}

/-- The call meets no failure and no interrupt. -/
structure Ndjson.CallEnv.Quiet (env : CallEnv) : Prop where
  hfirst : env.firstWrite = true
  hsecond : env.secondWrite = true
  hschema : env.schemaFault = none
  hfault : env.fault = none
  hend : env.endFault = none
  hcause : env.report.cause = .none

/-- A chunk that fits is delivered whole. -/
theorem provideRows_fits {chunkMode : Bool} {s : State} {body : List Record}
    (h : OpenAt text columns sessionId chunkMode s body) {env : CallEnv} (hquiet : env.Quiet)
    {rows : DataChunk} (hfits : 0 < s.ctx.maxRows → s.ctx.rowCount + rows.length ≤ s.ctx.maxRows)
    {vs : List Json} (hvs : rows.mapM (valuesJson text columns) = .ok vs) :
    provideRows text s env rows =
      delivered s rows.length (wireOf text columns sessionId (bodyRecords chunkMode vs)) := by
  have hfirst := hquiet.hfirst
  have hfault := hquiet.hfault
  have hcap : applyCap s.ctx rows = (rows.length, false) := by
    rw [applyCap, if_neg fun hover => by have := hfits hover.1; omega, h.notTruncated]
  have hpayload : payload text { s.ctx with truncated := false } rows =
      .ok (wireOf text columns sessionId (bodyRecords chunkMode vs)) := by
    rw [payload_eq text sessionId]
    simp only [h.hcolumns, h.hmode, hvs]
    rfl
  simp only [provideRows, hcap, hfault, Option.elim_none, List.take_length, hpayload, hfirst]
  rfl

/-- A chunk that does not fit is delivered as far as there is room, and the stream ends. -/
theorem provideRows_cut {chunkMode : Bool} {s : State} {body : List Record}
    (h : OpenAt text columns sessionId chunkMode s body) {env : CallEnv} (hquiet : env.Quiet)
    {rows : DataChunk} (hpos : 0 < s.ctx.maxRows)
    (hover : s.ctx.maxRows < s.ctx.rowCount + rows.length) {vs : List Json}
    (hvs : (rows.take (s.ctx.maxRows - s.ctx.rowCount)).mapM (valuesJson text columns) = .ok vs) :
    (provideRows text s env rows).more = false ∧
    (provideRows text s env rows).sink.wire = s.sink.wire ++ wireOf text columns sessionId
      (bodyRecords chunkMode vs ++ [.ended s.ctx.maxRows env.elapsedMs true]) := by
  obtain ⟨hfirst, hsecond, -, hfault, hend, -⟩ := hquiet
  have hroom := h.capped hpos
  have hcap : applyCap s.ctx rows = (s.ctx.maxRows - s.ctx.rowCount, true) := by
    rw [applyCap, if_pos ⟨hpos, hover⟩, sub64, if_pos hroom]
  have hpayload : payload text { s.ctx with truncated := true }
      (rows.take (s.ctx.maxRows - s.ctx.rowCount)) =
      .ok (wireOf text columns sessionId (bodyRecords chunkMode vs)) := by
    rw [payload_eq text sessionId]
    simp only [h.hcolumns, h.hmode, hvs]
    rfl
  have hcount : s.ctx.rowCount + (s.ctx.maxRows - s.ctx.rowCount) = s.ctx.maxRows := by omega
  simp only [provideRows, hcap, hfault, Option.elim_none, hpayload, hfirst, if_true, finish, hend,
    hcount, hsecond, Sink.write, Sink.done, true_and]
  rw [wireOf_append, wireOf_singleton, emitEnd_eq, line_write, List.append_assoc]
  rfl

/-- The last call: there are no more rows. -/
theorem provide_last {chunkMode : Bool} {s : State} {body : List Record}
    (h : OpenAt text columns sessionId chunkMode s body) {env : CallEnv} (hquiet : env.Quiet)
    (hempty : env.fetched.isEmpty = true) :
    (provide text s env).sink.wire = s.sink.wire ++ wireOf text columns sessionId
      [.ended s.ctx.rowCount env.elapsedMs false] := by
  obtain ⟨hfirst, -, -, -, hend, hcause⟩ := hquiet
  have hprovide : provide text s env = provideEmpty s env := by
    simp only [provide, h.schemaEmitted, h.notEnded, h.noError, Bool.not_true, Bool.false_eq_true,
      if_false, Bool.not_false, Bool.and_self, if_true]
    cases hfetched : env.fetched with
    | throws what => simp [hfetched, Fetched.isEmpty] at hempty
    | null error => rfl
    | chunk rows =>
        cases rows with
        | nil => rfl
        | cons row rows => simp [hfetched, Fetched.isEmpty] at hempty
  simp only [hprovide, provideEmpty, hcause, finish, hend, hfirst, h.notTruncated, Sink.write, Sink.done,
    if_true, wireOf_singleton, emitEnd_eq, line_write, Record.bytes, Record.json]

theorem provide_chunk {chunkMode : Bool} {s : State} {body : List Record}
    (h : OpenAt text columns sessionId chunkMode s body) {env : CallEnv} {rows : DataChunk}
    (hrows : rows ≠ []) (hfetched : env.fetched = .chunk rows) :
    provide text s env = provideRows text s env rows := by
  simp only [provide, h.schemaEmitted, h.notEnded, h.noError, Bool.not_true, Bool.false_eq_true,
    if_false, Bool.not_false, Bool.and_self, if_true, hfetched]

theorem mapM_append_eq_ok {α β : Type} {f : α → Except Bytes β} {as bs : List α} {cs : List β}
    (h : (as ++ bs).mapM f = .ok cs) :
    ∃ xs ys, as.mapM f = .ok xs ∧ bs.mapM f = .ok ys ∧ cs = xs ++ ys := by
  have hall := mapM_eq_ok.mp h
  refine ⟨cs.take as.length, cs.drop as.length, mapM_eq_ok.mpr ?_, mapM_eq_ok.mpr ?_,
    (List.take_append_drop as.length cs).symm⟩
  · simpa using List.forall₂_take as.length hall
  · simpa using List.forall₂_drop as.length hall

/-- **The rest of a stream**, by induction over the chunks. -/
theorem run_rows {chunkMode : Bool} {chunks : List DataChunk} {s : State} {body : List Record}
    (h : OpenAt text columns sessionId chunkMode s body) (hmore : s.more = true)
    (hne : ∀ chunk ∈ chunks, chunk ≠ []) {envs : List CallEnv} (hquiet : ∀ env ∈ envs, env.Quiet)
    {last : Fetched} (hlast : last.isEmpty = true)
    (hfetched : envs.map CallEnv.fetched = chunks.map .chunk ++ [last]) {vs : List Json}
    (hvs : (kept s.ctx.maxRows s.ctx.rowCount chunks.flatten).mapM (valuesJson text columns) = .ok vs) :
    ∃ added timeMs, (run text s envs).sink.wire = s.sink.wire ++ wireOf text columns sessionId
        (added ++ [.ended (s.ctx.rowCount + vs.length) timeMs
          (cut s.ctx.maxRows (s.ctx.rowCount + chunks.flatten.length))]) ∧
      (∀ r ∈ added, r.IsBody chunkMode) ∧ added.flatMap Record.rows = vs := by
  -- on the chunks: the wire holds what was written before this call, so `s` is generalised
  induction chunks generalizing s body envs vs with
  | nil =>
      obtain ⟨env, rfl, hlast'⟩ : ∃ env, envs = [env] ∧ env.fetched = last := by
        simpa [List.map_eq_singleton_iff] using hfetched
      obtain rfl : vs = [] := by
        have hnil : kept s.ctx.maxRows s.ctx.rowCount ([] : List (List Value)) = [] := by
          simp [kept]
        rw [List.flatten_nil, hnil] at hvs
        cases hvs
        rfl
      have hcut : cut s.ctx.maxRows s.ctx.rowCount = false := by
        simp only [cut, decide_eq_false_iff_not]
        intro hover
        have := h.capped hover.1
        omega
      refine ⟨[], env.elapsedMs, ?_, by simp, rfl⟩
      rw [run, hmore, if_pos rfl, run, provide_last h (hquiet env (by simp)) (hlast' ▸ hlast)]
      simp [hcut]
  | cons chunk chunks ih =>
      obtain ⟨env, rest, rfl, hchunk, hrest⟩ : ∃ env rest, envs = env :: rest ∧
          env.fetched = .chunk chunk ∧ rest.map CallEnv.fetched = chunks.map .chunk ++ [last] := by
        simpa [List.map_eq_cons_iff] using hfetched
      have henv := hquiet env (by simp)
      have hprovide := provide_chunk h (hne chunk (by simp)) hchunk
      rw [List.flatten_cons] at hvs ⊢
      rw [run, hmore, if_pos rfl, hprovide]
      by_cases hfits : 0 < s.ctx.maxRows → s.ctx.rowCount + chunk.length ≤ s.ctx.maxRows
      · -- the rows of the chunk all fit, the run goes on behind them
        rw [kept_of_fits _ hfits] at hvs
        obtain ⟨xs, ys, hxs, hys, rfl⟩ := mapM_append_eq_ok hvs
        have hlen : xs.length = chunk.length := (mapM_eq_ok.mp hxs).length_eq.symm
        have hrows : ∀ v ∈ xs, IsRow text columns v := by
          intro v hv
          obtain ⟨row, -, hrow⟩ := forall₂_exists_left (mapM_eq_ok.mp hxs) hv
          exact ⟨row, hrow⟩
        rw [provideRows_fits h henv hfits hxs, ← hlen]
        obtain ⟨added, timeMs, hwire, hbody, hadded⟩ := ih (h.delivered hrows (by rwa [hlen])) rfl
          (fun c hc => hne c (by simp [hc])) (fun e he => hquiet e (by simp [he])) hrest
          (by rw [← hlen] at hys; exact hys)
        refine ⟨bodyRecords chunkMode xs ++ added, timeMs, ?_, ?_, ?_⟩
        · rw [hwire, List.append_assoc, wireOf_append _ _ _ (bodyRecords chunkMode xs), ← List.append_assoc]
          simp only [List.length_append, ← hlen, ← Nat.add_assoc]
          rfl
        · exact List.forall_mem_append.mpr ⟨bodyRecords_isBody, hbody⟩
        · rw [List.flatMap_append, bodyRecords_rows, hadded]
      · -- the chunk exceeds `max_rows`: its first rows are sent and the run ends
        push Not at hfits
        obtain ⟨hpos, hover⟩ := hfits
        have hroom := h.capped hpos
        rw [kept_of_full _ hpos (by omega)] at hvs
        obtain ⟨hstop, hwire⟩ := provideRows_cut h henv hpos hover hvs
        rw [run_of_stopped hstop]
        have hlen : vs.length = s.ctx.maxRows - s.ctx.rowCount := by
          rw [← (mapM_eq_ok.mp hvs).length_eq, List.length_take]
          omega
        have hcut : cut s.ctx.maxRows (s.ctx.rowCount + (chunk ++ chunks.flatten).length) = true := by
          rw [cut, decide_eq_true_iff, List.length_append]
          omega
        have hcount : s.ctx.rowCount + vs.length = s.ctx.maxRows := by omega
        refine ⟨bodyRecords chunkMode vs, env.elapsedMs, ?_, bodyRecords_isBody, bodyRecords_rows _ _⟩
        rw [hwire, hcut, hcount]

/-! ## The one-shot response -/

/-- The loop gathers what the cap keeps. -/
theorem gather_chunks {maxRows : Nat} {chunks : List DataChunk} (hne : ∀ chunk ∈ chunks, chunk ≠ [])
    {last : Fetched} (hlast : last.isEmpty = true) {g : Gathered} (hg : g.truncated = false)
    (hroom : 0 < maxRows → g.rowCount < maxRows) :
    ∃ g', gather maxRows g (chunks.map .chunk ++ [last]) = .ok g' ∧
      g'.allChunks.flatten = g.allChunks.flatten ++ kept maxRows g.rowCount chunks.flatten ∧
      g'.rowCount = g.rowCount + (kept maxRows g.rowCount chunks.flatten).length := by
  induction chunks generalizing g with
  | nil =>
      have hgather : gather maxRows g [last] = .ok g := by
        cases last with
        | throws what => cases hlast
        | null error => rfl
        | chunk rows =>
            cases rows with
            | nil => rfl
            | cons row rows => cases hlast
      exact ⟨g, hgather, by simp [kept], by simp [kept]⟩
  | cons chunk chunks ih =>
      obtain ⟨row, rows, rfl⟩ := List.exists_cons_of_ne_nil (hne chunk (by simp))
      rw [List.map_cons, List.cons_append, List.flatten_cons, gather]
      set chunk := row :: rows
      -- the chunk reaches `max_rows`: its first rows are kept and nothing more is fetched
      by_cases hfull : maxRows > 0 ∧ g.rowCount + chunk.length ≥ maxRows
      · have := hroom hfull.1
        have hkept := kept_of_full chunks.flatten hfull.1 hfull.2
        have hadd : addChunk maxRows g chunk =
            ⟨g.allChunks ++ [chunk.take (maxRows - g.rowCount)], maxRows, true⟩ := by
          simp only [addChunk, if_pos hfull]
          -- `rowCount + size - maxRows` does not wrap: it is taken off only when it is positive
          split_ifs with hover
          · have hsub : sub64 (g.rowCount + chunk.length) maxRows = g.rowCount + chunk.length - maxRows :=
              if_pos (by omega)
            rw [hsub, sub64, if_pos (by omega)]
            congr 4
            omega
          · have heq : g.rowCount + chunk.length = maxRows := by omega
            rw [List.take_of_length_le (by omega), heq]
        refine ⟨_, by rw [hadd, if_pos rfl], ?_, ?_⟩
        · rw [hkept]
          simp
        · rw [hkept, List.length_take]
          show maxRows = _
          omega
      · have hfits : 0 < maxRows → g.rowCount + chunk.length ≤ maxRows := by omega
        have hadd : addChunk maxRows g chunk =
            ⟨g.allChunks ++ [chunk], g.rowCount + chunk.length, false⟩ := by
          simp only [addChunk, if_neg hfull, hg]
        have hlt : 0 < maxRows → g.rowCount + chunk.length < maxRows := by omega
        rw [hadd, if_neg Bool.false_ne_true]
        obtain ⟨g', hg', hflat, hcount⟩ := ih (fun c hc => hne c (by simp [hc]))
          (g := ⟨g.allChunks ++ [chunk], g.rowCount + chunk.length, false⟩) rfl hlt
        refine ⟨g', hg', ?_, ?_⟩
        · rw [hflat, kept_of_fits _ hfits]
          simp
        · rw [hcount, kept_of_fits _ hfits, List.length_append, Nat.add_assoc]

/-! ## The subtractions -/

/-- There are no more rows than the cap allows. -/
def Capped (ctx : StreamingCtx) : Prop := 0 < ctx.maxRows → ctx.rowCount ≤ ctx.maxRows

/-- The step keeps the cap and stays below it. -/
def KeepsCap (s s' : State) : Prop := Capped s'.ctx ∧ s'.ctx.maxRows = s.ctx.maxRows

theorem handleException_capped {s : State} (h : Capped s.ctx) (report : GuardReport) (what : Bytes)
    (fault ok : Bool) : KeepsCap s (handleException s report what fault ok) := by
  rw [handleException]
  split <;> exact ⟨h, rfl⟩

theorem finish_capped {s : State} (h : Capped s.ctx) (truncated : Bool) (env : CallEnv) (ok : Bool) :
    KeepsCap s (finish s truncated env ok) := by
  rw [finish]
  split
  · exact handleException_capped h _ _ _ _
  · exact ⟨h, rfl⟩

theorem provideEmpty_capped {s : State} (h : Capped s.ctx) (env : CallEnv) :
    KeepsCap s (provideEmpty s env) := by
  rw [provideEmpty]
  split
  · exact ⟨h, rfl⟩
  · exact ⟨h, rfl⟩
  · exact ⟨h, rfl⟩
  · exact finish_capped h _ _ _

theorem provideRows_capped {s : State} (h : Capped s.ctx) (env : CallEnv) (rows : DataChunk) :
    KeepsCap s (provideRows text s env rows) := by
  obtain ⟨n, truncated, hcap, hroom⟩ : ∃ n truncated, applyCap s.ctx rows = (n, truncated) ∧
      (0 < s.ctx.maxRows → s.ctx.rowCount + n ≤ s.ctx.maxRows) := by
    rw [applyCap]
    split_ifs with hover
    · have := h hover.1
      exact ⟨_, _, rfl, fun _ => by rw [sub64, if_pos this]; omega⟩
    · exact ⟨_, _, rfl, fun hpos => by omega⟩
  simp only [provideRows, hcap]
  split
  · exact handleException_capped (s := { s with ctx := { s.ctx with truncated := truncated } }) h _ _ _ _
  · split_ifs
    · refine finish_capped ?_ true env _
      exact hroom
    · exact ⟨hroom, rfl⟩
    · exact ⟨h, rfl⟩

theorem provideSchema_capped {s : State} (h : Capped s.ctx) (env : CallEnv) :
    KeepsCap s (provideSchema text s env) := by
  rw [provideSchema]
  split
  · exact handleException_capped h _ _ _ _
  · dsimp only
    split_ifs <;> exact ⟨h, rfl⟩

variable (text) in
theorem provide_capped {s : State} (h : Capped s.ctx) (env : CallEnv) :
    KeepsCap s (provide text s env) := by
  rw [provide]
  split_ifs
  · exact provideSchema_capped h env
  · split
    · exact handleException_capped h _ _ _ _
    · exact provideEmpty_capped h env
    · exact provideEmpty_capped h env
    · exact provideRows_capped h env _
  · exact ⟨h, rfl⟩

variable (text) in
/-- Between any two calls, whatever they meet, the cap holds: the subtraction of the next call does
not wrap around. -/
theorem run_capped (envs : List CallEnv) {s : State} (h : Capped s.ctx) :
    Capped (run text s envs).ctx ∧ (run text s envs).ctx.maxRows = s.ctx.maxRows := by
  induction envs generalizing s with
  | nil => exact ⟨h, rfl⟩
  | cons env envs ih =>
      rw [run]
      split_ifs
      · obtain ⟨hcap, hmax⟩ := provide_capped text h env
        obtain ⟨hcap', hmax'⟩ := ih hcap
        exact ⟨hcap', hmax'.trans hmax⟩
      · exact ⟨h, rfl⟩

/-- Nor do the two subtractions of the fetch loop: when a chunk comes, there are no more rows than the
cap allows. -/
theorem gather_capped {maxRows : Nat} {fetches : List Fetched} {g g' : Gathered}
    (hg : 0 < maxRows → g.rowCount ≤ maxRows) (h : gather maxRows g fetches = .ok g') :
    0 < maxRows → g'.rowCount ≤ maxRows := by
  induction fetches generalizing g with
  | nil =>
      cases h
      exact hg
  | cons fetched fetches ih =>
      cases fetched with
      | throws what => cases h
      | null error =>
          cases h
          exact hg
      | chunk rows =>
          cases rows with
          | nil =>
              cases h
              exact hg
          | cons row rows =>
              have hadd : 0 < maxRows → (addChunk maxRows g (row :: rows)).rowCount ≤ maxRows := by
                intro hpos
                simp only [addChunk]
                split_ifs with hfull hover
                · exact le_refl _
                · show g.rowCount + (row :: rows).length ≤ maxRows
                  omega
                · show g.rowCount + (row :: rows).length ≤ maxRows
                  omega
              rw [gather] at h
              split_ifs at h
              · cases h
                exact hadd
              · exact ih hadd h

/-! ## All three -/

/-- The one-shot response with these rows. -/
def oneShotTree (text : DuckText) (columns : Columns) (sessionId : Bytes) (rows : List Json)
    (timeMs : Int) : Json :=
  obj ([(lit "ok", .bool true), (lit "kind", str (lit "select"))] ++ sessionIdJson sessionId ++
    [(lit "columns", columnsJson text columns), (lit "data", arr rows),
      (lit "rowCount", num (Bytes.decNat rows.length)), (lit "timeMs", num (Bytes.decInt timeMs))])

theorem eq_map_row {added : List Record} (h : ∀ r ∈ added, r.IsBody false) :
    added = (added.flatMap Record.rows).map .row := by
  induction added with
  | nil => rfl
  | cons r added ih =>
      obtain ⟨hr, hadded⟩ := List.forall_mem_cons.mp h
      cases r with
      | row values =>
          rw [List.flatMap_cons, Record.rows, List.singleton_append, List.map_cons, ← ih hadded]
      | chunk rows => exact absurd hr (by simp [Record.IsBody])
      | _ => exact hr.elim

theorem exists_blocks {added : List Record} (h : ∀ r ∈ added, r.IsBody true) :
    ∃ blocks : List (List Json), added = blocks.map .chunk ∧ blocks.flatten = added.flatMap Record.rows := by
  induction added with
  | nil => exact ⟨[], rfl, rfl⟩
  | cons r added ih =>
      obtain ⟨hr, hadded⟩ := List.forall_mem_cons.mp h
      obtain ⟨blocks, hblocks, hflat⟩ := ih hadded
      cases r with
      | chunk rows =>
          exact ⟨rows :: blocks, by rw [hblocks, List.map_cons],
            by rw [List.flatten_cons, hflat, List.flatMap_cons, Record.rows]⟩
      | row values => exact absurd hr (by simp [Record.IsBody])
      | _ => exact hr.elim

variable (sessionId) in
/-- A whole stream, in either mode. -/
theorem run_start {maxRows : Nat} (chunkMode : Bool) {chunks : List DataChunk}
    (hne : ∀ chunk ∈ chunks, chunk ≠ []) {vs : List Json}
    (hvs : (kept maxRows 0 chunks.flatten).mapM (valuesJson text columns) = .ok vs)
    {envs : List CallEnv} (hquiet : ∀ env ∈ envs, env.Quiet) {last : Fetched}
    (hlast : last.isEmpty = true)
    (hfetched : envs.tail.map CallEnv.fetched = chunks.map .chunk ++ [last]) :
    ∃ added timeMs, (run text (start columns sessionId maxRows chunkMode) envs).sink.wire =
        wireOf text columns sessionId (.schema :: added ++
          [.ended vs.length timeMs (cut maxRows chunks.flatten.length)]) ∧
      (∀ r ∈ added, r.IsBody chunkMode) ∧ added.flatMap Record.rows = vs := by
  cases envs with
  | nil => simp at hfetched
  | cons env envs =>
      rw [List.tail_cons] at hfetched
      obtain ⟨hopen, hmore⟩ := provide_start text columns sessionId maxRows
        chunkMode (hquiet env (by simp)).hschema (hquiet env (by simp)).hfirst
      have hmax : (provide text (start columns sessionId maxRows chunkMode) env).ctx.maxRows = maxRows :=
        (provide_capped text (s := start columns sessionId maxRows chunkMode) (fun _ => Nat.zero_le _) env).2
      obtain ⟨added, timeMs, hwire, hbody, hrows⟩ := run_rows hopen hmore hne
        (fun e he => hquiet e (by simp [he])) hlast hfetched (by rw [hmax, hopen.count]; exact hvs)
      refine ⟨added, timeMs, ?_, hbody, hrows⟩
      rw [run, if_pos (by rfl), hwire, hopen.hwire, ← wireOf_append, hmax, hopen.count]
      simp

/-- **The three shapes deliver the same rows**: `vs`, the trees of the rows the cap keeps. -/
theorem shapes_deliver_same_rows {maxRows : Nat} {chunks : List DataChunk}
    (hne : ∀ chunk ∈ chunks, chunk ≠ []) {vs : List Json}
    (hvs : (kept maxRows 0 chunks.flatten).mapM (valuesJson text columns) = .ok vs)
    {envs : List CallEnv} (hquiet : ∀ env ∈ envs, env.Quiet) {last : Fetched}
    (hlast : last.isEmpty = true)
    (hfetched : envs.tail.map CallEnv.fetched = chunks.map .chunk ++ [last])
    (report : GuardReport) (timeMs : Int) :
    (∃ timeMs, (run text (start columns sessionId maxRows false) envs).sink.wire =
      wireOf text columns sessionId (.schema :: vs.map .row ++
        [.ended vs.length timeMs (cut maxRows chunks.flatten.length)])) ∧
    (∃ (blocks : List (List Json)) (timeMs : Int), blocks.flatten = vs ∧
      (run text (start columns sessionId maxRows true) envs).sink.wire =
        wireOf text columns sessionId (.schema :: blocks.map .chunk ++
          [.ended vs.length timeMs (cut maxRows chunks.flatten.length)])) ∧
    oneShotResponse text columns sessionId maxRows (chunks.map .chunk ++ [last]) report timeMs =
      .ok ⟨200, lit "application/json", (oneShotTree text columns sessionId vs timeMs).text⟩ ∧
    vs.length = (if maxRows = 0 then chunks.flatten.length else min chunks.flatten.length maxRows) ∧
    (0 < maxRows →
      (∀ chunkMode calls,
        (run text (start columns sessionId maxRows chunkMode) calls).ctx.rowCount ≤ maxRows) ∧
      ∀ fetches g, gather maxRows {} fetches = .ok g → g.rowCount ≤ maxRows) := by
  refine ⟨?_, ?_, ?_, ?_, fun hpos => ⟨fun chunkMode calls => ?_, fun fetches g hg => ?_⟩⟩
  · obtain ⟨added, timeMs, hwire, hbody, rfl⟩ := run_start sessionId false hne hvs hquiet
      hlast hfetched
    exact ⟨timeMs, by rw [hwire, ← eq_map_row hbody]⟩
  · obtain ⟨added, timeMs, hwire, hbody, rfl⟩ := run_start sessionId true hne hvs hquiet
      hlast hfetched
    obtain ⟨blocks, rfl, hflat⟩ := exists_blocks hbody
    exact ⟨blocks, timeMs, hflat, hwire⟩
  · -- the one-shot answer: the same rows, gathered first
    obtain ⟨g, hg, hflat, hcount⟩ := gather_chunks hne hlast (g := {}) rfl fun hpos => hpos
    have htree : oneShotJson text columns sessionId (lit "select") g.allChunks g.rowCount timeMs =
        .ok (oneShotTree text columns sessionId vs timeMs) := by
      have hrows : g.allChunks.flatten.mapM (valuesJson text columns) = .ok vs := by
        rw [hflat]
        exact hvs
      have hlen : g.rowCount = vs.length := by
        rw [hcount, ← (mapM_eq_ok.mp hvs).length_eq]
        exact Nat.zero_add _
      rw [oneShotJson, hrows, hlen]
      rfl
    rw [oneShotResponse, hg]
    simp only [emitOneShot_eq, htree, Except.map]
    exact congrArg (fun b => Except.ok (HttpResponse.mk 200 (lit "application/json") b)) (write_new _)
  · rw [← (mapM_eq_ok.mp hvs).length_eq, length_kept_zero]
  · obtain ⟨hcap, hmax⟩ := run_capped text calls
      (s := start columns sessionId maxRows chunkMode) fun _ => Nat.zero_le _
    have hmax : (run text (start columns sessionId maxRows chunkMode) calls).ctx.maxRows = maxRows := hmax
    rw [Capped, hmax] at hcap
    exact hcap hpos
  · exact gather_capped (fun _ => Nat.zero_le _) hg hpos

/-- Chunks of two rows and of one, and a cap that the first chunk reaches. -/
theorem shapes_deliver_same_rows_boundary :
    let integer : LogicalType := .scalar .integer
    let chunks : List DataChunk := [[[.leaf integer (.int 1)], [.leaf integer (.int 2)]],
      [[.leaf integer (.int 3)]]]
    let envs : List CallEnv := [{ fetched := .null none }, { fetched := .chunk chunks[0] },
      { fetched := .chunk chunks[1] }, { fetched := .null none }]
    let rows : List Json := [arr [num (lit "1")], arr [num (lit "2")]]
    (∃ timeMs, (run .numerals (start [(lit "n", integer)] [] 2 false) envs).sink.wire =
      wireOf .numerals [(lit "n", integer)] [] (.schema :: rows.map .row ++ [.ended 2 timeMs true])) ∧
    oneShotResponse .numerals [(lit "n", integer)] [] 2 (chunks.map .chunk ++ [.null none]) {} 5 =
      .ok ⟨200, lit "application/json",
        (oneShotTree .numerals [(lit "n", integer)] [] rows 5).text⟩ := by
  intro integer chunks envs rows
  have hne : ∀ chunk ∈ chunks, chunk ≠ [] := by simp [chunks]
  have hquiet : ∀ env ∈ envs, env.Quiet := by
    simp only [envs, List.forall_mem_cons, List.not_mem_nil, false_implies, implies_true, and_true]
    exact ⟨⟨rfl, rfl, rfl, rfl, rfl, rfl⟩, ⟨rfl, rfl, rfl, rfl, rfl, rfl⟩,
      ⟨rfl, rfl, rfl, rfl, rfl, rfl⟩, ⟨rfl, rfl, rfl, rfl, rfl, rfl⟩⟩
  have hvs : (kept 2 0 chunks.flatten).mapM (valuesJson .numerals [(lit "n", integer)]) = .ok rows := by
    rfl
  have hfetched : envs.tail.map CallEnv.fetched = chunks.map .chunk ++ [.null none] := rfl
  obtain ⟨hrow, -, honeShot, -⟩ := shapes_deliver_same_rows hne hvs hquiet rfl hfetched {} 5
  exact ⟨hrow, honeShot⟩

end Harbor
