import Harbor.Auth.Request
import Harbor.Lib.Runs

set_option autoImplicit false

/-! # The connections of the UI

Every `/ddb/run` request runs on a connection that is remembered under the caller's principal and the name
the caller sent; `/ddb/interrupt` interrupts the one it finds there. The lookup and the insertion of
`FindOrCreateConnection` are two critical sections, between which other requests come. The steps are the
critical sections, and connections are numbered as they are created; the state has in addition the name
each of them was created for, and the interrupts.
-/

namespace Harbor.Ui.Connections

open Harbor.Auth Runs

/-! ## The callers -/

/-- A principal's name has no NUL in it, which separates it from the connection's name. -/
structure Principal where
  id : Bytes
  noNul : 0 ∉ id
deriving DecidableEq

theorem not_mem_of_isValidPrincipalHex {id : Bytes} (h : isValidPrincipalHex id = true) : 0 ∉ id := by
  intro hmem
  rw [isValidPrincipalHex, Bool.and_eq_true, List.all_eq_true] at h
  exact absurd (h.2 0 hmem) (by decide)

/-- Whoever a server lets in is one. -/
def Principal.ofResult {auth : AuthManager} {ctx : AuthContext} {headers : Headers} {sessionId : Bytes}
    (h : (auth.authenticateRequest ctx headers sessionId).ok = true) : Principal where
  id := (auth.authenticateRequest ctx headers sessionId).principalId
  noNul := by
    cases hauth : auth.unauthenticated with
    | false => exact not_mem_of_isValidPrincipalHex (authenticateRequest_principal hauth h)
    | true =>
        rw [authenticateRequest_localDev hauth ctx headers sessionId]
        decide

/-- `ScopedConnectionKey`. -/
def scopedConnectionKey (principal : Principal) (connectionName : Bytes) : Bytes :=
  principal.id ++ 0 :: connectionName

theorem scopedConnectionKey_ne_nil (principal : Principal) (connectionName : Bytes) :
    scopedConnectionKey principal connectionName ≠ [] := by
  simp [scopedConnectionKey]

/-- The key tells both names. -/
theorem scopedConnectionKey_inj {p p' : Principal} {n n' : Bytes}
    (h : scopedConnectionKey p n = scopedConnectionKey p' n') : p = p' ∧ n = n' := by
  have hid : ∀ q : Principal, ∀ m, (scopedConnectionKey q m).takeWhile (· != 0) = q.id := by
    intro q m
    have hall : ∀ b ∈ q.id, (b != 0) = true := by
      intro b hb
      exact bne_iff_ne.mpr (ne_of_mem_of_not_mem hb q.noNul)
    rw [scopedConnectionKey, List.takeWhile_append_of_pos hall]
    simp
  have hp : p.id = p'.id := by rw [← hid p n, h, hid p' n']
  refine ⟨?_, ?_⟩
  · cases p
    cases p'
    cases hp
    rfl
  · rw [scopedConnectionKey, scopedConnectionKey, hp] at h
    exact (List.cons.inj (List.append_cancel_left h)).2

/-! ## The state machine -/

/-- Where a request is: between the two critical sections it has a new connection in its hands. -/
inductive Phase where
  | idle
  | creating (principal : Principal) (name : Bytes) (connection : Nat)
  | running (principal : Principal) (name : Bytes) (connection : Nat)
deriving DecidableEq

/-- What `/ddb/interrupt` came to; `none` is a 404. -/
structure Interrupt where
  principal : Principal
  name : Bytes
  connection : Option Nat

/-- The `UIStorageExtensionInfo` of a database. -/
structure State where
  connections : Bytes → Option Nat := fun _ => none
  requests : Nat → Phase := fun _ => .idle
  createdFor : List Bytes := []
  interrupts : List Interrupt := []

inductive Action where
  /-- `FindOrCreateConnection`, up to the second lock. -/
  | find (request : Nat) (principal : Principal) (name : Bytes)
  /-- The second critical section. -/
  | store (request : Nat)
  | finish (request : Nat)
  | interrupt (principal : Principal) (name : Bytes)

/-- `FindConnection`. -/
def State.findConnection (s : State) (connectionName : Bytes) : Option Nat :=
  if connectionName = [] then none else s.connections connectionName

def State.setRequest (s : State) (request : Nat) (phase : Phase) : State :=
  { s with requests := Function.update s.requests request phase }

/-- `make_shared_ptr<Connection>`. -/
def State.create (s : State) (connectionName : Bytes) : State :=
  { s with createdFor := s.createdFor ++ [connectionName] }

def step (s : State) : Action → Option State
  | .find request principal name =>
      if s.requests request = .idle then
        let connectionName := scopedConnectionKey principal name
        let newCon := s.createdFor.length
        if connectionName = [] then
          some ((s.create connectionName).setRequest request (.running principal name newCon))
        else
          match s.findConnection connectionName with
          | some connection => some (s.setRequest request (.running principal name connection))
          | none => some ((s.create connectionName).setRequest request (.creating principal name newCon))
      else none
  | .store request =>
      match s.requests request with
      | .creating principal name newCon =>
          some ({ s with
            connections := Function.update s.connections (scopedConnectionKey principal name) (some newCon)
            }.setRequest request (.running principal name newCon))
      | _ => none
  | .finish request =>
      match s.requests request with
      | .running _ _ _ => some (s.setRequest request .idle)
      | _ => none
  | .interrupt principal name =>
      some { s with
        interrupts := s.interrupts ++
          [⟨principal, name, s.findConnection (scopedConnectionKey principal name)⟩] }

/-! ## The invariant -/

/-- A connection is where it belongs, and one that is not yet in the map is in one request's hands. -/
structure Inv (s : State) : Prop where
  stored : ∀ key connection, s.connections key = some connection → s.createdFor[connection]? = some key
  running : ∀ i p n connection, s.requests i = .running p n connection →
    s.createdFor[connection]? = some (scopedConnectionKey p n)
  creating : ∀ i p n connection, s.requests i = .creating p n connection →
    s.createdFor[connection]? = some (scopedConnectionKey p n)
  fresh : ∀ i p n connection, s.requests i = .creating p n connection →
    (∀ key, s.connections key ≠ some connection) ∧
      ∀ j q m, s.requests j = .creating q m connection → j = i
  interrupted : ∀ interrupt ∈ s.interrupts, ∀ connection, interrupt.connection = some connection →
    s.createdFor[connection]? = some (scopedConnectionKey interrupt.principal interrupt.name)

theorem inv_init : Inv {} where
  stored := by simp
  running := by simp
  creating := by simp
  fresh := by simp
  interrupted := by simp

theorem findConnection_eq (s : State) (p : Principal) (n : Bytes) :
    s.findConnection (scopedConnectionKey p n) = s.connections (scopedConnectionKey p n) :=
  if_neg (scopedConnectionKey_ne_nil p n)

/-- What a step can do. A name is never empty, so every connection is remembered. -/
theorem step_cases {s t : State} {a : Action} (h : step s a = some t) :
    (∃ i p n c, a = .find i p n ∧ s.requests i = .idle ∧
      s.connections (scopedConnectionKey p n) = some c ∧ t = s.setRequest i (.running p n c)) ∨
    (∃ i p n, a = .find i p n ∧ s.requests i = .idle ∧
      s.connections (scopedConnectionKey p n) = none ∧
      t = (s.create (scopedConnectionKey p n)).setRequest i (.creating p n s.createdFor.length)) ∨
    (∃ i p n c, a = .store i ∧ s.requests i = .creating p n c ∧
      t = { s with
        connections := Function.update s.connections (scopedConnectionKey p n) (some c)
        }.setRequest i (.running p n c)) ∨
    (∃ i p n c, a = .finish i ∧ s.requests i = .running p n c ∧ t = s.setRequest i .idle) ∨
    (∃ p n, a = .interrupt p n ∧ t = { s with
      interrupts := s.interrupts ++ [⟨p, n, s.connections (scopedConnectionKey p n)⟩] }) := by
  cases a with
  | find i p n =>
      simp only [step] at h
      split at h
      · rename_i hidle
        rw [if_neg (scopedConnectionKey_ne_nil p n), findConnection_eq] at h
        split at h
        · rename_i c hc
          exact .inl ⟨i, p, n, c, rfl, hidle, hc, (Option.some.inj h).symm⟩
        · rename_i hnone
          exact .inr (.inl ⟨i, p, n, rfl, hidle, hnone, (Option.some.inj h).symm⟩)
      · cases h
  | store i =>
      simp only [step] at h
      split at h
      · rename_i p n c hc
        exact .inr (.inr (.inl ⟨i, p, n, c, rfl, hc, (Option.some.inj h).symm⟩))
      · cases h
  | finish i =>
      simp only [step] at h
      split at h
      · rename_i p n c hc
        exact .inr (.inr (.inr (.inl ⟨i, p, n, c, rfl, hc, (Option.some.inj h).symm⟩)))
      · cases h
  | interrupt p n =>
      simp only [step, findConnection_eq] at h
      exact .inr (.inr (.inr (.inr ⟨p, n, rfl, (Option.some.inj h).symm⟩)))

theorem setRequest_cases {s : State} {i j : Nat} {phase phase' : Phase}
    (h : (s.setRequest i phase).requests j = phase') :
    (j = i ∧ phase = phase') ∨ (j ≠ i ∧ s.requests j = phase') := by
  by_cases hji : j = i
  · subst hji
    exact .inl ⟨rfl, by simpa [State.setRequest] using h⟩
  · exact .inr ⟨hji, by simpa [State.setRequest, hji] using h⟩

/-- A connection is created for one name. -/
theorem getElem?_create {created : List Bytes} {connection : Nat} {key : Bytes}
    (h : created[connection]? = some key) (name : Bytes) :
    (created ++ [name])[connection]? = some key := by
  obtain ⟨hlt, -⟩ := List.getElem?_eq_some_iff.mp h
  rw [List.getElem?_append_left hlt]
  exact h

theorem inv_step {s t : State} {a : Action} (hs : Inv s) (h : step s a = some t) : Inv t := by
  obtain ⟨i, p, n, c, rfl, hidle, hc, rfl⟩ | ⟨i, p, n, rfl, hidle, hnone, rfl⟩ |
    ⟨i, p, n, c, rfl, hc, rfl⟩ | ⟨i, p, n, c, rfl, hc, rfl⟩ | ⟨p, n, rfl, rfl⟩ := step_cases h
  · -- a request has found its connection
    refine ⟨hs.stored, fun j q m d hj => ?_, fun j q m d hj => ?_, fun j q m d hj => ?_, hs.interrupted⟩
    · obtain ⟨-, hj⟩ | ⟨-, hj⟩ := setRequest_cases hj
      · cases hj
        exact hs.stored _ _ hc
      · exact hs.running j q m d hj
    · obtain ⟨-, hj⟩ | ⟨-, hj⟩ := setRequest_cases hj
      · cases hj
      · exact hs.creating j q m d hj
    · obtain ⟨-, hj⟩ | ⟨-, hj⟩ := setRequest_cases hj
      · cases hj
      · refine ⟨(hs.fresh j q m d hj).1, fun k r o hk => ?_⟩
        obtain ⟨-, hk⟩ | ⟨-, hk⟩ := setRequest_cases hk
        · cases hk
        · exact (hs.fresh j q m d hj).2 k r o hk
  · -- a new connection, which nobody else has
    have hnew : ∀ key : Bytes, s.createdFor[s.createdFor.length]? ≠ some key := by
      intro key hkey
      rw [List.getElem?_eq_none (le_refl _)] at hkey
      cases hkey
    refine ⟨fun key d hd => getElem?_create (hs.stored key d hd) _, fun j q m d hj => ?_,
      fun j q m d hj => ?_, fun j q m d hj => ?_,
      fun r hr d hd => getElem?_create (hs.interrupted r hr d hd) _⟩
    · obtain ⟨-, hj⟩ | ⟨-, hj⟩ := setRequest_cases hj
      · cases hj
      · exact getElem?_create (hs.running j q m d hj) _
    · obtain ⟨-, hj⟩ | ⟨-, hj⟩ := setRequest_cases hj
      · cases hj
        simp [State.setRequest, State.create]
      · exact getElem?_create (hs.creating j q m d hj) _
    · obtain ⟨rfl, hphase⟩ | ⟨hji, hj⟩ := setRequest_cases hj
      · cases hphase
        refine ⟨fun key hkey => hnew key (hs.stored key _ hkey), fun k r o hk => ?_⟩
        obtain ⟨rfl, -⟩ | ⟨-, hk⟩ := setRequest_cases hk
        · rfl
        · exact absurd (hs.creating k r o _ hk) (hnew _)
      · refine ⟨(hs.fresh j q m d hj).1, fun k r o hk => ?_⟩
        obtain ⟨-, hk⟩ | ⟨-, hk⟩ := setRequest_cases hk
        · cases hk
          exact absurd (hs.creating j q m _ hj) (hnew _)
        · exact (hs.fresh j q m d hj).2 k r o hk
  · -- the connection goes into the map
    have hcreated := hs.creating i p n c hc
    refine ⟨fun key d hd => ?_, fun j q m d hj => ?_, fun j q m d hj => ?_, fun j q m d hj => ?_,
      hs.interrupted⟩
    · by_cases hkey : key = scopedConnectionKey p n
      · subst hkey
        obtain rfl : c = d := by simpa [State.setRequest] using hd
        exact hcreated
      · exact hs.stored key d (by simpa [State.setRequest, hkey] using hd)
    · obtain ⟨-, hj⟩ | ⟨-, hj⟩ := setRequest_cases hj
      · cases hj
        exact hcreated
      · exact hs.running j q m d hj
    · obtain ⟨-, hj⟩ | ⟨-, hj⟩ := setRequest_cases hj
      · cases hj
      · exact hs.creating j q m d hj
    · obtain ⟨-, hj⟩ | ⟨hji, hj⟩ := setRequest_cases hj
      · cases hj
      · have hne : c ≠ d := by
          rintro rfl
          exact hji ((hs.fresh i p n c hc).2 j q m hj)
        refine ⟨fun key hkey => ?_, fun k r o hk => ?_⟩
        · by_cases heq : key = scopedConnectionKey p n
          · subst heq
            exact hne (by simpa [State.setRequest] using hkey)
          · exact (hs.fresh j q m d hj).1 key (by simpa [State.setRequest, heq] using hkey)
        · obtain ⟨-, hk⟩ | ⟨-, hk⟩ := setRequest_cases hk
          · cases hk
          · exact (hs.fresh j q m d hj).2 k r o hk
  · refine ⟨hs.stored, fun j q m d hj => ?_, fun j q m d hj => ?_, fun j q m d hj => ?_, hs.interrupted⟩
    · obtain ⟨-, hj⟩ | ⟨-, hj⟩ := setRequest_cases hj
      · cases hj
      · exact hs.running j q m d hj
    · obtain ⟨-, hj⟩ | ⟨-, hj⟩ := setRequest_cases hj
      · cases hj
      · exact hs.creating j q m d hj
    · obtain ⟨-, hj⟩ | ⟨-, hj⟩ := setRequest_cases hj
      · cases hj
      · refine ⟨(hs.fresh j q m d hj).1, fun k r o hk => ?_⟩
        obtain ⟨-, hk⟩ | ⟨-, hk⟩ := setRequest_cases hk
        · cases hk
        · exact (hs.fresh j q m d hj).2 k r o hk
  · refine ⟨hs.stored, hs.running, hs.creating, hs.fresh, fun r hr d hd => ?_⟩
    obtain hr | hr := List.mem_append.mp hr
    · exact hs.interrupted r hr d hd
    · obtain rfl := List.mem_singleton.mp hr
      exact hs.stored _ d hd

theorem inv_of_run {as : List Action} {t : State} (hrun : run step {} as = some t) : Inv t :=
  run_invariant (fun _ _ _ hs _ h => inv_step hs h) inv_init (meets_true _ _) hrun

/-! ## Whose the connections are -/

/-- **A connection serves one principal under one name.** Whatever requests come in between the two locks,
two requests on one connection are the same principal's under the same name, and an interrupt reaches only
requests of its own principal under its own name. -/
theorem connections_apart {as : List Action} {t : State} (hrun : run step {} as = some t) {i : Nat}
    {p : Principal} {n : Bytes} {connection : Nat} (hi : t.requests i = .running p n connection) :
    (∀ j q m, t.requests j = .running q m connection → q = p ∧ m = n) ∧
      ∀ interrupt ∈ t.interrupts, interrupt.connection = some connection →
        interrupt.principal = p ∧ interrupt.name = n := by
  have ht := inv_of_run hrun
  have hcreated := ht.running i p n connection hi
  constructor
  · intro j q m hj
    exact scopedConnectionKey_inj (Option.some.inj ((ht.running j q m _ hj).symm.trans hcreated))
  · intro interrupt hmem hreached
    exact scopedConnectionKey_inj
      (Option.some.inj ((ht.interrupted interrupt hmem _ hreached).symm.trans hcreated))

def localDev : Principal := ⟨localDevPrincipalId, by decide⟩

/-- Two requests without a name, of which the second comes when the first has stored its connection. -/
def oneAfterTheOther : List Action :=
  [.find 0 localDev [], .store 0, .find 1 localDev [], .interrupt localDev []]

theorem connections_apart_one :
    let t := (run step {} oneAfterTheOther).get rfl
    (∀ j q m, t.requests j = .running q m 0 → q = localDev ∧ m = []) ∧
      ∀ interrupt ∈ t.interrupts, interrupt.connection = some 0 →
        interrupt.principal = localDev ∧ interrupt.name = [] := by
  intro t
  have hrun : run step {} oneAfterTheOther = some t := (Option.some_get _).symm
  have hi : t.requests 1 = .running localDev [] 0 := rfl
  exact connections_apart hrun hi

/-! ## Which requests an interrupt reaches -/

/-- The step does not put another connection in the map under this name. -/
def Keeps (principal : Principal) (name : Bytes) (s : State) (a : Action) : Prop :=
  ∀ i connection, a = .store i → s.requests i ≠ .creating principal name connection

/-- A connection that is no longer in the hands of the request that created it. -/
structure Out (connection : Nat) (s : State) : Prop where
  inv : Inv s
  created : connection < s.createdFor.length
  out : ∀ i p n, s.requests i ≠ .creating p n connection

theorem out_step {connection : Nat} {s t : State} {a : Action} (hs : Out connection s)
    (h : step s a = some t) : Out connection t := by
  refine ⟨inv_step hs.inv h, ?_, fun j q m hj => ?_⟩
  · obtain ⟨i, p, n, c, rfl, hidle, hc, rfl⟩ | ⟨i, p, n, rfl, hidle, hnone, rfl⟩ |
      ⟨i, p, n, c, rfl, hc, rfl⟩ | ⟨i, p, n, c, rfl, hc, rfl⟩ | ⟨p, n, rfl, rfl⟩ := step_cases h
    · exact hs.created
    · simpa [State.setRequest, State.create] using Nat.lt_succ_of_lt hs.created
    · exact hs.created
    · exact hs.created
    · exact hs.created
  · obtain ⟨i, p, n, c, rfl, hidle, hc, rfl⟩ | ⟨i, p, n, rfl, hidle, hnone, rfl⟩ |
      ⟨i, p, n, c, rfl, hc, rfl⟩ | ⟨i, p, n, c, rfl, hc, rfl⟩ | ⟨p, n, rfl, rfl⟩ := step_cases h
    · obtain ⟨-, hj⟩ | ⟨-, hj⟩ := setRequest_cases hj
      · cases hj
      · exact hs.out j q m hj
    · obtain ⟨-, hj⟩ | ⟨-, hj⟩ := setRequest_cases hj
      · cases hj
        exact Nat.lt_irrefl _ hs.created
      · exact hs.out j q m hj
    · obtain ⟨-, hj⟩ | ⟨-, hj⟩ := setRequest_cases hj
      · cases hj
      · exact hs.out j q m hj
    · obtain ⟨-, hj⟩ | ⟨-, hj⟩ := setRequest_cases hj
      · cases hj
      · exact hs.out j q m hj
    · exact hs.out j q m hj

/-- What a step does to one name of the map. -/
theorem connections_step {s t : State} {a : Action} (h : step s a = some t) (p : Principal) (n : Bytes) :
    (Keeps p n s a ∧ t.connections (scopedConnectionKey p n) = s.connections (scopedConnectionKey p n)) ∨
      ∃ i c, a = .store i ∧ s.requests i = .creating p n c ∧
        t.connections (scopedConnectionKey p n) = some c := by
  obtain ⟨i, q, m, c, rfl, hidle, hc, rfl⟩ | ⟨i, q, m, rfl, hidle, hnone, rfl⟩ |
    ⟨i, q, m, c, rfl, hc, rfl⟩ | ⟨i, q, m, c, rfl, hc, rfl⟩ | ⟨q, m, rfl, rfl⟩ := step_cases h
  · exact .inl ⟨by rintro _ _ ⟨⟩, rfl⟩
  · exact .inl ⟨by rintro _ _ ⟨⟩, rfl⟩
  · by_cases hkey : scopedConnectionKey p n = scopedConnectionKey q m
    · obtain ⟨rfl, rfl⟩ := scopedConnectionKey_inj hkey
      exact .inr ⟨i, c, rfl, hc, by simp [State.setRequest]⟩
    · refine .inl ⟨fun j d heq hj => ?_, by simp [State.setRequest, hkey]⟩
      cases heq
      rw [hc] at hj
      cases hj
      exact hkey rfl
  · exact .inl ⟨by rintro _ _ ⟨⟩, rfl⟩
  · exact .inl ⟨by rintro _ _ ⟨⟩, rfl⟩

/-- A request that has just got its connection has the one in the map. -/
theorem out_of_begin {s u : State} {a : Action} {i : Nat} {p : Principal} {n : Bytes} {connection : Nat}
    (hs : Inv s) (hstep : step s a = some u) (hbegin : s.requests i ≠ u.requests i)
    (hi : u.requests i = .running p n connection) :
    Out connection u ∧ u.connections (scopedConnectionKey p n) = some connection := by
  have hu := inv_step hs hstep
  have hcreated : connection < u.createdFor.length :=
    (List.getElem?_eq_some_iff.mp (hu.running i p n connection hi)).1
  have hmap : u.connections (scopedConnectionKey p n) = some connection := by
    obtain ⟨j, q, m, c, rfl, hidle, hc, rfl⟩ | ⟨j, q, m, rfl, hidle, hnone, rfl⟩ |
      ⟨j, q, m, c, rfl, hc, rfl⟩ | ⟨j, q, m, c, rfl, hc, rfl⟩ | ⟨q, m, rfl, rfl⟩ := step_cases hstep
    · obtain ⟨-, hphase⟩ | ⟨hij, hother⟩ := setRequest_cases hi
      · cases hphase
        exact hc
      · exact absurd (hother.trans hi.symm) hbegin
    · obtain ⟨-, hphase⟩ | ⟨hij, hother⟩ := setRequest_cases hi
      · cases hphase
      · exact absurd (hother.trans hi.symm) hbegin
    · obtain ⟨-, hphase⟩ | ⟨hij, hother⟩ := setRequest_cases hi
      · cases hphase
        simp [State.setRequest]
      · exact absurd (hother.trans hi.symm) hbegin
    · obtain ⟨-, hphase⟩ | ⟨hij, hother⟩ := setRequest_cases hi
      · cases hphase
      · exact absurd (hother.trans hi.symm) hbegin
    · exact absurd rfl hbegin
  exact ⟨⟨hu, hcreated, fun j q m hj => (hu.fresh j q m _ hj).1 _ hmap⟩, hmap⟩

/-- **Whom an interrupt reaches.** From the moment a request has got its connection on, an interrupt under
its name finds this connection exactly as long as no other first request under the same name, which looked
when there was none yet, has stored its own; and then never again. -/
theorem interrupt_reaches_iff {as bs : List Action} {a : Action} {s u t : State} {i : Nat} {p : Principal}
    {n : Bytes} {connection : Nat} (hrun : run step {} as = some s) (hstep : step s a = some u)
    (hbegin : s.requests i ≠ u.requests i) (hi : u.requests i = .running p n connection)
    (hrest : run step u bs = some t) :
    t.findConnection (scopedConnectionKey p n) = some connection ↔ Meets step (Keeps p n) u bs := by
  obtain ⟨hout, hmap⟩ := out_of_begin (inv_of_run hrun) hstep hbegin hi
  rw [findConnection_eq]
  refine end_iff_meets (I := Out connection)
    (P := fun v => v.connections (scopedConnectionKey p n) = some connection)
    (fun v b w hv h => out_step hv h) ?_ ?_ hout hmap hrest
  · intro v b w hv hmap h
    obtain ⟨hkeeps, hsame⟩ | ⟨j, c, rfl, hj, hstored⟩ := connections_step h p n
    · rw [hsame]
      exact iff_of_true hmap hkeeps
    · refine iff_of_false ?_ fun hkeeps => hkeeps j c rfl hj
      rw [hstored]
      rintro ⟨⟩
      exact hv.out j p n hj
  · intro v b w hv hmap h
    obtain ⟨-, hsame⟩ | ⟨j, c, rfl, hj, hstored⟩ := connections_step h p n
    · rw [hsame]
      exact hmap
    · rw [hstored]
      rintro ⟨⟩
      exact hv.out j p n hj

/-- Both requests look before either has stored. -/
def bothLook : List Action := [.find 0 localDev [], .find 1 localDev []]

/-- The first request runs on, but no interrupt finds it any more. -/
theorem interrupt_reaches_iff_both :
    let s := (run step {} bothLook).get rfl
    let u := (step s (.store 0)).get rfl
    let t := (run step u [.store 1]).get rfl
    t.requests 0 = .running localDev [] 0 ∧ t.findConnection (scopedConnectionKey localDev []) ≠ some 0 := by
  intro s u t
  have hrun : run step {} bothLook = some s := (Option.some_get _).symm
  have hstep : step s (.store 0) = some u := (Option.some_get _).symm
  have hrest : run step u [.store 1] = some t := (Option.some_get _).symm
  have hbegin : s.requests 0 ≠ u.requests 0 := by decide
  have hi : u.requests 0 = .running localDev [] 0 := rfl
  refine ⟨rfl, fun hreached => ?_⟩
  have hmeets := (interrupt_reaches_iff hrun hstep hbegin hi hrest).mp hreached
  exact hmeets.1 1 1 rfl rfl

end Harbor.Ui.Connections
