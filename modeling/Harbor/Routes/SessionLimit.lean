import Harbor.Routes.Isolation

set_option autoImplicit false

/-! # How many sessions there are

`CreateOwnedSession` compares the number of sessions with `harbor_max_sessions` in the same critical
section in which it adds one. `CreateNewConnection`, by which the binary protocol makes its sessions,
compares nothing.
-/

namespace Harbor.Routes

open Harbor.Auth Harbor.Session Prog

/-- `CreateNewConnection` is called while there are fewer sessions than the limit. -/
def BelowLimit (maxSessions : UInt64) (w : World) : Call → Prop
  | .createNewConnection _ => w.pool.active.length < maxSessions.toNat
  | _ => True

/-- The setting is `maxSessions`, and the map keeps to it. -/
structure WithinLimit (maxSessions : UInt64) (w : World) : Prop where
  setting : w.maxSessionsSetting = some maxSessions
  size : w.pool.active.length ≤ maxSessions.toNat

/-- What a request has read as the limit is the setting, unless the database has been closed. -/
def ReadLimit (maxSessions : UInt64) (w : World) : Event Answer → Prop
  | ⟨.readMaxSessions, m⟩ => m = maxSessions.toNat ∨ w.db = none
  | _ => True

theorem readLimit_of_exec {maxSessions : UInt64} (hmax : maxSessions ≠ 0) {w w' : World}
    {ev : Event Answer} (hsetting : w.maxSessionsSetting = some maxSessions) (hexec : exec w ev w') :
    ReadLimit maxSessions w' ev := by
  obtain ⟨call, answer⟩ := ev
  cases call with
  | readMaxSessions =>
      obtain ⟨hanswer, rfl⟩ := hexec
      cases hdb : w'.db with
      | none => exact Or.inr hdb
      | some db =>
          have hopen : w'.dbOpen = true := by simp [World.dbOpen, hdb]
          rw [hsetting, hopen] at hanswer
          left
          rw [hanswer]
          simp [readMaxSessions, hmax]
  | _ => trivial

theorem readLimit_mono {maxSessions : UInt64} {w w' : World} (hdb : w.db = none → w'.db = none)
    {past : Event Answer} (h : ReadLimit maxSessions w past) : ReadLimit maxSessions w' past := by
  obtain ⟨call, answer⟩ := past
  cases call with
  | readMaxSessions => exact h.imp_right hdb
  | _ => trivial

/-- The limit a request has read bounds what it adds. -/
theorem insertOwned_within {deps : Deps} {r : RoutedRequest} {maxSessions : UInt64} {w : World}
    {h : Past} {ev : Event Answer} {sessionId owner : Bytes} {m : Nat}
    (hfacts : ∀ past ∈ h, ReadLimit maxSessions w past) (hok : Ok deps r h ev)
    (hcall : ev.1 = .insertOwned sessionId owner m) (hopen : w.dbOpen = true)
    (hlimit : w.pool.active.length < m) : w.pool.active.length < maxSessions.toNat := by
  obtain ⟨-, hread, -⟩ := hok.createsOwned sessionId owner m hcall
  obtain ⟨⟨call, answer⟩, hmem, hreads⟩ := List.any_eq_true.mp hread
  have hfact := hfacts _ hmem
  cases call with
  | readMaxSessions =>
      have hm : answer = m := by simpa [readsMax] using hreads
      obtain hread | hclosed := hfact
      · rw [← hread, hm]
        exact hlimit
      · simp [World.dbOpen, hclosed] at hopen
  | _ => simp [readsMax] at hreads

/-- One call keeps the limit. -/
theorem withinLimit_of_exec {deps : Deps} {r : RoutedRequest} {maxSessions : UInt64} {w w' : World}
    {h : Past} {ev : Event Answer} (hw : WithinLimit maxSessions w)
    (hfacts : ∀ past ∈ h, ReadLimit maxSessions w past) (hok : Ok deps r h ev)
    (hbelow : BelowLimit maxSessions w ev.1) (hexec : exec w ev w') : WithinLimit maxSessions w' := by
  refine ⟨(settings_of_exec hexec).2.2.trans hw.setting, ?_⟩
  obtain hsub | ⟨sessionId, s, hcall, -, hactive⟩ |
    ⟨sessionId, owner, m, s, hcall, -, hactive, hopen, hlimit⟩ := pool_of_exec hexec
  · exact hsub.length_le.trans hw.size
  · rw [hcall] at hbelow
    rw [hactive, List.length_append]
    exact hbelow
  · rw [hactive, List.length_append]
    exact insertOwned_within hfacts hok hcall hopen hlimit

/-- **The session limit.** With the setting fixed at a value that is not zero, in every run in which
`CreateNewConnection` is only called below the limit there are never more sessions than the limit. -/
theorem session_limit {deps : Deps} {maxSessions : UInt64} (hmax : maxSessions ≠ 0) {w₀ : World}
    (hsetting : w₀.maxSessionsSetting = some maxSessions) (hempty : w₀.pool.active = [])
    {c : Config World Call Answer Reply}
    (hrun : Run (fun w ev w' => BelowLimit maxSessions w ev.1 ∧ exec w ev w')
      (fun w w' => env w w' ∧ w'.maxSessionsSetting = w.maxSessionsSetting)
      (fun p => ∃ r, p = handler deps r) w₀ c) :
    c.world.pool.active.length ≤ maxSessions.toNat := by
  have hcall : ∀ w h ev w', WithinLimit maxSessions w → (∀ past ∈ h, ReadLimit maxSessions w past) →
      (∃ r, Ok deps r h ev) → BelowLimit maxSessions w ev.1 ∧ exec w ev w' →
      WithinLimit maxSessions w' ∧ ReadLimit maxSessions w' ev ∧
        ∀ past, ReadLimit maxSessions w past → ReadLimit maxSessions w' past := by
    rintro w h ev w' hw hfacts ⟨r, hok⟩ ⟨hbelow, hexec⟩
    refine ⟨withinLimit_of_exec hw hfacts hok hbelow hexec,
      readLimit_of_exec hmax hw.setting hexec, fun past => readLimit_mono ?_⟩
    intro hclosed
    rw [(settings_of_exec hexec).2.1, hclosed]
  have henv : ∀ w w', WithinLimit maxSessions w →
      env w w' ∧ w'.maxSessionsSetting = w.maxSessionsSetting →
      WithinLimit maxSessions w' ∧
        ∀ past, ReadLimit maxSessions w past → ReadLimit maxSessions w' past := by
    rintro w w' hw ⟨henv, hsame⟩
    refine ⟨⟨hsame.trans hw.setting, ?_⟩, fun past => readLimit_mono henv.1⟩
    rw [henv.2]
    exact hw.size
  have hlegal : ∀ w ev w', BelowLimit maxSessions w ev.1 ∧ exec w ev w' → Legal ev :=
    fun w ev w' hstep => legal_of_exec w ev w' hstep.2
  exact (hrun.invariant hlegal (wp_arrives deps) hcall henv ⟨hsetting, by simp [hempty]⟩).1.size

/-! ## Connections of the binary protocol -/

/-- A server that lets everybody in, for one session. -/
def limitWorld : World :=
  { pageWorld with auth := .new (some {}) [] true, maxSessionsSetting := some 1 }

def connectRequest : QuackRequest := ⟨[], .connectionRequest 1 []⟩

/-- What a connection request that makes the session `s` does, the last call first. -/
def connectPast (s : HarborSession) : Past :=
  [⟨.createNewConnection s.sessionId, .ok s⟩,
    ⟨.runAuthentication s.sessionId [], true⟩,
    ⟨.generateSessionId, some s.sessionId⟩,
    ⟨.lockDatabase, true⟩]

theorem connectPast_alone (maxSessions : UInt64) {pool pool' : Pool} {s : HarborSession}
    (hid : GeneratedId s.sessionId) (hsize : pool.active.length < maxSessions.toNat)
    (hcreate : pool.createNewConnection true s.sessionId = (.ok s, pool')) : ∃ p,
    Alone (fun w ev w' => BelowLimit maxSessions w ev.1 ∧ exec w ev w') { limitWorld with pool }
      (handler plainDeps (.quack connectRequest)) (connectPast s) { limitWorld with pool := pool' }
      p := by
  have hstart : Alone (fun w ev w' => BelowLimit maxSessions w ev.1 ∧ exec w ev w')
      { limitWorld with pool } (handler plainDeps (.quack connectRequest)) [] { limitWorld with pool }
      (handler plainDeps (.quack connectRequest)) := .start
  have hopen := Alone.answer (v := { limitWorld with pool }) true hstart ⟨trivial, rfl, rfl⟩
  have hgenerated := Alone.answer (v := { limitWorld with pool }) (some s.sessionId) hopen
    ⟨trivial, fun id heq => Option.some.inj heq ▸ hid, (fun h => nomatch h), rfl⟩
  have hauthn := Alone.answer (v := { limitWorld with pool }) true hgenerated ⟨trivial, rfl, rfl⟩
  have hexec : exec { limitWorld with pool } ⟨.createNewConnection s.sessionId, .ok s⟩
      { limitWorld with pool := pool' } := ⟨pool', hcreate, rfl⟩
  have hcreated := Alone.answer (e := Call.createNewConnection s.sessionId)
    (Except.ok s) hauthn ⟨hsize, hexec⟩
  exact ⟨_, hcreated⟩

def firstSession : HarborSession := { ref := 0, sessionId := hexEncode (List.replicate 16 0) }

def secondSession : HarborSession := { ref := 1, sessionId := hexEncode (List.replicate 16 1) }

/-- The map with the first session, and with both. -/
def onePool : Pool := { active := [firstSession], created := 1 }

def twoPool : Pool := { active := [firstSession, secondSession], created := 2 }

theorem firstSession_generated : GeneratedId firstSession.sessionId := ⟨Vector.replicate 16 0, rfl⟩

theorem firstSession_created :
    ({} : Pool).createNewConnection true firstSession.sessionId = (.ok firstSession, onePool) := rfl

theorem secondSession_generated : GeneratedId secondSession.sessionId :=
  ⟨Vector.replicate 16 1, rfl⟩

theorem secondSession_created :
    onePool.createNewConnection true secondSession.sessionId = (.ok secondSession, twoPool) := rfl

theorem session_limit_connect : onePool.active.length ≤ (1 : UInt64).toNat := by
  obtain ⟨p, hfirst⟩ := connectPast_alone 1 firstSession_generated (by decide) firstSession_created
  have hrun : Run (fun w ev w' => BelowLimit 1 w ev.1 ∧ exec w ev w')
      (fun w w' => env w w' ∧ w'.maxSessionsSetting = w.maxSessionsSetting)
      (fun p => ∃ r, p = handler plainDeps r) limitWorld _ :=
    Run.alone Relation.ReflTransGen.refl ⟨_, rfl⟩ hfirst
  exact session_limit (by decide) rfl rfl hrun

/-- With the setting at 1, two connection requests one after another make two sessions. -/
theorem limit_exceeded :
    limitWorld.maxSessionsSetting = some 1 ∧ limitWorld.pool.active = [] ∧
      (∃ c, Run exec (fun w w' => env w w' ∧ w'.maxSessionsSetting = w.maxSessionsSetting)
        (fun p => ∃ r, p = handler plainDeps r) limitWorld c ∧ c.world.pool.active.length = 2) := by
  obtain ⟨p, hfirst⟩ := connectPast_alone 2 firstSession_generated (by decide) firstSession_created
  obtain ⟨q, hsecond⟩ := connectPast_alone 2 secondSession_generated (by decide) secondSession_created
  refine ⟨rfl, rfl, ⟨_, Run.alone (Run.alone Relation.ReflTransGen.refl ⟨_, rfl⟩
    (hfirst.mono fun _ _ _ h => h.2)) ⟨_, rfl⟩ (hsecond.mono fun _ _ _ h => h.2), rfl⟩⟩

end Harbor.Routes
