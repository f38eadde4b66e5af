import Harbor.Lib.OwnedMap
import Harbor.Session.Pool
import Harbor.Session.QueryTimeout

set_option autoImplicit false

/-! # The session manager

`SessionManager` as an object: the map `active` from ids to `shared_ptr`s, and the `HarborSession`
objects they point to, which outlive their entries. Each method is one function, with what it reads
of the database in an `Env`.

The abstract side is the owned map of a manager: which ids are live, and whose they are.
`manager_refines`: in every reachable state every call does what it is to do on an owned map.
-/

namespace Harbor.Session

open Harbor.Auth
open Harbor.QueryTimeout (InterruptCause)

/-! ## The objects -/

/-- A `HarborSession` object: what its construction fixes, what handlers write while they run a query
on it, and the cause of the last interrupt. -/
structure SessionObject where
  sessionId : Bytes
  ownerPrincipalId : Bytes
  createdAt : Nat
  lastQuery : Bytes := []
  queryInFlight : Bool := false
  interruptCause : InterruptCause := .none
  deriving DecidableEq, Repr

/-- What the construction of a session fixes. -/
def SessionObject.identity (s : SessionObject) : Bytes × Bytes := (s.sessionId, s.ownerPrincipalId)

/-- The owner a principal id stands for: the empty one stands for nobody. -/
def asOwner (principalId : Bytes) : Option Bytes :=
  if principalId = [] then none else some principalId

theorem asOwner_inj {p q : Bytes} : asOwner p = asOwner q ↔ p = q := by
  by_cases hp : p = [] <;> by_cases hq : q = [] <;> simp [asOwner, hp, hq, eq_comm]

/-- A `SessionSnapshot`. -/
structure SessionSnapshot where
  sessionId : Bytes
  ownerPrincipalId : Bytes
  createdAt : Nat
  queryInFlight : Bool
  lastQuery : Bytes := []
  lastQueryTruncated : Bool := false
  deriving DecidableEq, Repr

/-- `SessionManager`: `active`, and all the objects made so far. A `shared_ptr` is the position of its
object. -/
structure SessionManager where
  active : AList fun _ : Bytes => Nat := ∅
  objects : List SessionObject := []

/-- What a call finds outside of the manager. -/
structure Env where
  /-- `db.lock()` of `ReadMaxSessionsSetting`. -/
  settingOpen : Bool := true
  /-- The setting `harbor_max_sessions`. -/
  maxSessionsSetting : Option UInt64 := none
  /-- `db.lock()` of the method itself. -/
  dbOpen : Bool := true
  /-- What the constructor of `Connection` throws, if it does. -/
  connectionThrows : Option Bytes := none
  now : Nat := 0

/-- The database is open and gives a connection. -/
def Env.connects (env : Env) : Bool := env.dbOpen && env.connectionThrows.isNone

/-- What a method that makes a session throws. -/
inductive Thrown where
  | create (error : CreateError)
  | connection (what : Bytes)
  deriving DecidableEq, Repr

namespace SessionManager

variable (m : SessionManager)

/-- The object of a `shared_ptr`. -/
def object (ref : Nat) : SessionObject := m.objects.getD ref ⟨[], [], 0, [], false, .none⟩

/-- A write to the fields of an object. -/
def write (ref : Nat) (f : SessionObject → SessionObject) : SessionManager :=
  { m with objects := m.objects.modify ref f }

/-! ## The methods -/

/-- `active[session_id] = make_shared_ptr<HarborSession>(session_id, owner)`. -/
def added (now : Nat) (sessionId owner : Bytes) : SessionManager where
  active := m.active.insert sessionId m.objects.length
  objects := m.objects ++ [⟨sessionId, owner, now, [], false, .none⟩]

/-- The end of a creation: the database, the connection, and the new entry. -/
def construct (env : Env) (sessionId owner : Bytes) : Except Thrown Bytes × SessionManager :=
  match env.dbOpen, env.connectionThrows with
  | false, _ => (.error (.create .databaseClosed), m)
  | true, some what => (.error (.connection what), m)
  | true, none => (.ok sessionId, m.added env.now sessionId owner)

/-- `CreateNewConnection`. -/
def createNewConnection (env : Env) (sessionId : Bytes) : Except Thrown Bytes × SessionManager :=
  if (m.active.lookup sessionId).isSome then (.error (.create (.idCollision sessionId)), m)
  else m.construct env sessionId []

/-- `CreateOwnedSession`. -/
def createOwnedSession (env : Env) (sessionId owner : Bytes) :
    Except Thrown Bytes × SessionManager :=
  if isValidPrincipalHex owner = false then (.error (.create .invalidOwner), m)
  else
    let maxSessions := readMaxSessions env.settingOpen env.maxSessionsSetting
    if m.active.entries.length ≥ maxSessions then (.error (.create (.sessionLimit maxSessions)), m)
    else if (m.active.lookup sessionId).isSome then (.error (.create (.idCollision sessionId)), m)
    else m.construct env sessionId owner

/-- `GetConnection`. -/
def getConnection (sessionId : Bytes) : Option Nat := m.active.lookup sessionId

/-- `DisconnectConnection`. -/
def disconnectConnection (sessionId : Bytes) : Bool × SessionManager :=
  match m.active.lookup sessionId with
  | none => (false, m)
  | some _ => (true, { m with active := m.active.erase sessionId })

/-- `LookupOwnedSession`. -/
def lookupOwnedSession (sessionId principalId : Bytes) : Option Nat :=
  match m.active.lookup sessionId with
  | none => none
  | some ref => if (m.object ref).ownerPrincipalId ≠ principalId then none else some ref

/-- `DestroyOwnedSession`. -/
def destroyOwnedSession (sessionId principalId : Bytes) : Bool × SessionManager :=
  match m.active.lookup sessionId with
  | none => (false, m)
  | some ref =>
      if (m.object ref).ownerPrincipalId ≠ principalId then (false, m)
      else (true, { m with active := m.active.erase sessionId })

/-- The loop of `DestroyAllOwnedBy` over the entries that are left, with `destroyed`. -/
def destroyLoop (principalId : Bytes) :
    List (Sigma fun _ : Bytes => Nat) → (AList fun _ : Bytes => Nat) → Nat →
      Nat × AList fun _ : Bytes => Nat
  | [], active, destroyed => (destroyed, active)
  | it :: rest, active, destroyed =>
      if (m.object it.2).ownerPrincipalId = principalId then
        destroyLoop principalId rest (active.erase it.1) (destroyed + 1)
      else destroyLoop principalId rest active destroyed

/-- `DestroyAllOwnedBy`. -/
def destroyAllOwnedBy (principalId : Bytes) : Nat × SessionManager :=
  if principalId = [] then (0, m)
  else
    let result := m.destroyLoop principalId m.active.entries m.active 0
    (result.1, { m with active := result.2 })

/-- `InterruptSession`: the cause is stored in the object before `Connection::Interrupt`. -/
def interruptSession (sessionId : Bytes) (cause : InterruptCause) : Bool × SessionManager :=
  match m.active.lookup sessionId with
  | none => (false, m)
  | some ref =>
      (true, m.write ref fun s => { s with interruptCause := cause })

/-- One element of `Snapshot`. -/
def snapshotOf (lastQueryMaxChars : Nat) (s : SessionObject) : SessionSnapshot :=
  { sessionId := s.sessionId, ownerPrincipalId := s.ownerPrincipalId, createdAt := s.createdAt
    queryInFlight := s.queryInFlight
    lastQuery := if lastQueryMaxChars > 0 then s.lastQuery.take lastQueryMaxChars else []
    lastQueryTruncated := lastQueryMaxChars > 0 && s.lastQuery.length > lastQueryMaxChars }

/-- `Snapshot`. -/
def snapshot (lastQueryMaxChars : Nat) : List SessionSnapshot :=
  m.active.entries.map fun kv => snapshotOf lastQueryMaxChars (m.object kv.2)

/-! ## Calls -/

/-- A call of a method, or a handler's write to the fields it updates while it runs a query. -/
inductive Call where
  | createNewConnection (sessionId : Bytes)
  | createOwnedSession (sessionId owner : Bytes)
  | getConnection (sessionId : Bytes)
  | disconnectConnection (sessionId : Bytes)
  | lookupOwnedSession (sessionId principalId : Bytes)
  | destroyOwnedSession (sessionId principalId : Bytes)
  | destroyAllOwnedBy (principalId : Bytes)
  | interruptSession (sessionId : Bytes) (cause : InterruptCause)
  | snapshot (lastQueryMaxChars : Nat)
  | runQuery (ref : Nat) (lastQuery : Bytes) (queryInFlight : Bool)
  deriving DecidableEq, Repr

inductive Answer where
  | created (result : Except Thrown Bytes)
  | found (session : Option Nat)
  | removed (ok : Bool)
  | destroyed (n : Nat)
  | snapshots (out : List SessionSnapshot)
  | ran

def call (env : Env) : Call → Answer × SessionManager
  | .createNewConnection sessionId =>
      (.created (m.createNewConnection env sessionId).1, (m.createNewConnection env sessionId).2)
  | .createOwnedSession sessionId owner =>
      (.created (m.createOwnedSession env sessionId owner).1,
        (m.createOwnedSession env sessionId owner).2)
  | .getConnection sessionId => (.found (m.getConnection sessionId), m)
  | .disconnectConnection sessionId =>
      (.removed (m.disconnectConnection sessionId).1, (m.disconnectConnection sessionId).2)
  | .lookupOwnedSession sessionId principalId =>
      (.found (m.lookupOwnedSession sessionId principalId), m)
  | .destroyOwnedSession sessionId principalId =>
      (.removed (m.destroyOwnedSession sessionId principalId).1,
        (m.destroyOwnedSession sessionId principalId).2)
  | .destroyAllOwnedBy principalId =>
      (.destroyed (m.destroyAllOwnedBy principalId).1, (m.destroyAllOwnedBy principalId).2)
  | .interruptSession sessionId cause =>
      (.removed (m.interruptSession sessionId cause).1, (m.interruptSession sessionId cause).2)
  | .snapshot lastQueryMaxChars => (.snapshots (m.snapshot lastQueryMaxChars), m)
  | .runQuery ref lastQuery queryInFlight =>
      (.ran, m.write ref fun s => { s with lastQuery, queryInFlight })

/-- The manager after some calls. -/
def run (m : SessionManager) (calls : List (Env × Call)) : SessionManager :=
  calls.foldl (fun m c => (m.call c.1 c.2).2) m

/-! ## The owned map of a manager -/

/-- Whose the session of a `shared_ptr` is. -/
def ownerOf (ref : Nat) : Option Bytes := asOwner (m.object ref).ownerPrincipalId

/-- Whose the live ids are. -/
def owned : OwnedMap Bytes Bytes := OwnedMap.ofAList m.ownerOf m.active

theorem owned_eq (id : Bytes) : m.owned id = (m.active.lookup id).map m.ownerOf := rfl

theorem owned_eq_none (id : Bytes) : m.owned id = none ↔ m.active.lookup id = none := by
  rw [owned_eq, Option.map_eq_none_iff]

/-- The call on an owned map that a method is; a query is none. -/
def Call.op (env : Env) : Call → Option (OwnedMap.Op Bytes Bytes)
  | .createNewConnection sessionId => some (.create sessionId none none env.connects)
  | .createOwnedSession sessionId owner =>
      some (.create sessionId (asOwner owner) (some (readMaxSessions env.settingOpen env.maxSessionsSetting))
        (isValidPrincipalHex owner && env.connects))
  | .getConnection sessionId => some (.get sessionId)
  | .disconnectConnection sessionId => some (.erase sessionId)
  | .lookupOwnedSession sessionId principalId => some (.getOwned sessionId (asOwner principalId))
  | .destroyOwnedSession sessionId principalId => some (.eraseOwned sessionId (asOwner principalId))
  | .destroyAllOwnedBy principalId => some (.eraseOwnedBy (asOwner principalId))
  | .interruptSession sessionId _ => some (.get sessionId)
  | .snapshot _ => some .list
  | .runQuery .. => none

/-- What an answer says of the owned map. -/
def Answer.said : Answer → OwnedMap.Answer Bytes Bytes
  | .created result => .done result.isOk
  | .found session => .done session.isSome
  | .removed ok => .done ok
  | .destroyed n => .count n
  | .snapshots out => .listed (out.map fun s => (s.sessionId, asOwner s.ownerPrincipalId))
  | .ran => .listed []

/-- Every entry points to an object, and to one with the id of its key. -/
def WellKept : Prop :=
  ∀ id ref, m.active.lookup id = some ref →
    ref < m.objects.length ∧ (m.object ref).sessionId = id

/-- What one call does, in terms of the owned map: a query does nothing there. No entry is given
another object, a new entry is given a new one, no object another id or owner, and a creation that fails
does nothing at all. -/
structure Simulates (m : SessionManager) (env : Env) (c : Call) (a : Answer) (m' : SessionManager) :
    Prop where
  spec : ∀ op, c.op env = some op → OwnedMap.Spec m.owned op a.said m'.owned
  frame : c.op env = none → m'.owned = m.owned
  kept : ∀ id ref, m.active.lookup id = some ref →
    m'.active.lookup id = some ref ∨ m'.active.lookup id = none
  fresh : ∀ id ref, m'.active.lookup id = some ref →
    m.active.lookup id = some ref ∨ ref = m.objects.length
  fixed : m.objects.map SessionObject.identity <+: m'.objects.map SessionObject.identity
  found : ∀ id ref, (c = .getConnection id ∨ ∃ p, c = .lookupOwnedSession id p) →
    a = .found (some ref) → m.active.lookup id = some ref
  failed : ∀ e, a = .created (.error e) → m' = m

/-! ## What does not change -/

variable {m}

theorem map_identity_modify (objects : List SessionObject) (ref : Nat)
    {f : SessionObject → SessionObject} (hf : ∀ s, (f s).identity = s.identity) :
    (objects.modify ref f).map SessionObject.identity = objects.map SessionObject.identity := by
  apply List.ext_getElem?
  intro i
  rw [List.getElem?_map, List.getElem?_map, List.getElem?_modify]
  cases objects[i]? with
  | none => rfl
  | some s => by_cases h : ref = i <;> simp [h, hf]

/-- An object keeps its id and its owner as long as the identities only grow. -/
theorem object_identity {m' : SessionManager} {ref : Nat}
    (hfix : m.objects.map SessionObject.identity <+: m'.objects.map SessionObject.identity)
    (href : ref < m.objects.length) :
    ref < m'.objects.length ∧ (m'.object ref).identity = (m.object ref).identity := by
  obtain ⟨rest, hrest⟩ := hfix
  have hlen := congrArg List.length hrest
  rw [List.length_append, List.length_map, List.length_map] at hlen
  have href' : ref < m'.objects.length := by omega
  refine ⟨href', ?_⟩
  have hget := congrArg (fun l => l[ref]?) hrest
  simp only [List.getElem?_append_left (show ref < (m.objects.map _).length by simpa using href),
    List.getElem?_map, List.getElem?_eq_getElem href, List.getElem?_eq_getElem href',
    Option.map_some, Option.some.injEq] at hget
  simp only [object, List.getD_eq_getElem?_getD, List.getElem?_eq_getElem href,
    List.getElem?_eq_getElem href', Option.getD_some]
  exact hget.symm

theorem ownerOf_eq_of_identity {m' : SessionManager} {ref : Nat}
    (h : (m'.object ref).identity = (m.object ref).identity) : m'.ownerOf ref = m.ownerOf ref :=
  congrArg (fun i : Bytes × Bytes => asOwner i.2) h

/-- What is owned does not depend on what else happens to the objects. -/
theorem owned_of_fixed {m' : SessionManager} (hw : m.WellKept)
    (hfix : m.objects.map SessionObject.identity <+: m'.objects.map SessionObject.identity)
    (hactive : m'.active = m.active) : m'.owned = m.owned := by
  funext id
  rw [owned_eq, owned_eq, hactive]
  cases h : m.active.lookup id with
  | none => rfl
  | some ref =>
      exact congrArg some
        (ownerOf_eq_of_identity (object_identity hfix (hw id ref h).1).2)

theorem WellKept.of_fixed {m' : SessionManager} (hw : m.WellKept)
    (hfix : m.objects.map SessionObject.identity <+: m'.objects.map SessionObject.identity)
    (hsub : ∀ id ref, m'.active.lookup id = some ref → m.active.lookup id = some ref) :
    m'.WellKept := by
  intro id ref h
  obtain ⟨href, hid⟩ := hw id ref (hsub id ref h)
  obtain ⟨href', hsame⟩ := object_identity hfix href
  exact ⟨href', (congrArg Prod.fst hsame).trans hid⟩

theorem lookup_of_erase {active : AList fun _ : Bytes => Nat} {id id' : Bytes} {ref : Nat}
    (h : (active.erase id).lookup id' = some ref) : active.lookup id' = some ref := by
  by_cases hid : id' = id
  · rw [hid, AList.lookup_erase] at h
    exact absurd h (by simp)
  · rwa [AList.lookup_erase_ne hid] at h

theorem kept_of_erase {active : AList fun _ : Bytes => Nat} (id : Bytes) {id' : Bytes} {ref : Nat}
    (h : active.lookup id' = some ref) :
    (active.erase id).lookup id' = some ref ∨ (active.erase id).lookup id' = none := by
  by_cases hid : id' = id
  · rw [hid, AList.lookup_erase]
    exact .inr rfl
  · rw [AList.lookup_erase_ne hid]
    exact .inl h

/-! ## One call -/

/-- The calls that give back the session they find. -/
def Call.looksUp : Call → Bool
  | .getConnection _ | .lookupOwnedSession _ _ => true
  | _ => false

theorem found_of_not_looksUp {c : Call} (hc : c.looksUp = false) {P : Nat → Prop}
    {Q : Bytes → Nat → Prop} :
    ∀ id ref, (c = .getConnection id ∨ ∃ p, c = .lookupOwnedSession id p) → P ref → Q id ref := by
  rintro id ref (rfl | ⟨p, rfl⟩) _ <;> exact nomatch hc

section

variable (hw : m.WellKept) {env : Env}
include hw

/-- A call that gives back what it found, and only writes what no identity has. -/
theorem simulates_of_same {m' : SessionManager} {c : Call} {a : Answer}
    (hfix : m'.objects.map SessionObject.identity = m.objects.map SessionObject.identity)
    (hactive : m'.active = m.active)
    (hspec : ∀ op, c.op env = some op → OwnedMap.Spec m.owned op a.said m.owned)
    (hfound : ∀ id ref, (c = .getConnection id ∨ ∃ p, c = .lookupOwnedSession id p) →
      a = .found (some ref) → m.active.lookup id = some ref)
    (hfailed : ∀ e, a = .created (.error e) → m' = m) : m.Simulates env c a m' := by
  have hprefix : m.objects.map SessionObject.identity <+:
      m'.objects.map SessionObject.identity := by rw [hfix]
  have howned := owned_of_fixed hw hprefix hactive
  exact
    { spec := fun op hop => by rw [howned]; exact hspec op hop
      frame := fun _ => howned
      kept := fun id ref h => .inl (by rw [hactive]; exact h)
      fresh := fun id ref h => .inl (by rw [← hactive]; exact h)
      fixed := hprefix
      found := hfound
      failed := hfailed }

/-- A write of what no identity has. -/
theorem simulates_of_write {c : Call} {a : Answer} (ref : Nat)
    {f : SessionObject → SessionObject} (hf : ∀ s, (f s).identity = s.identity)
    (hspec : ∀ op, c.op env = some op → OwnedMap.Spec m.owned op a.said m.owned)
    (hfound : ∀ id ref, (c = .getConnection id ∨ ∃ p, c = .lookupOwnedSession id p) →
      a = .found (some ref) → m.active.lookup id = some ref)
    (hfailed : ∀ e, a ≠ .created (.error e)) : m.Simulates env c a (m.write ref f) :=
  simulates_of_same hw (map_identity_modify m.objects ref hf) rfl hspec hfound
    fun e h => absurd h (hfailed e)

/-- A creation that throws. -/
theorem simulates_of_error {c : Call} {id : Bytes} {owner : Option Bytes} {limit : Option Nat}
    {ready : Bool} (e : Thrown) (hc : c.op env = some (.create id owner limit ready))
    (hmay : ¬ m.owned.MayCreate id limit ready) : m.Simulates env c (.created (.error e)) m := by
  apply simulates_of_same hw rfl rfl
  · intro op hop
    rw [hc, Option.some.injEq] at hop
    subst hop
    exact ⟨iff_of_false Bool.false_ne_true hmay, rfl⟩
  · exact fun _ _ _ h => nomatch h
  · exact fun _ _ => rfl

/-- The new entry is the one difference. -/
theorem simulates_of_added {c : Call} {id owner : Bytes} {limit : Option Nat} {ready : Bool} (now : Nat)
    (hc : c.op env = some (.create id (asOwner owner) limit ready))
    (hmay : m.owned.MayCreate id limit ready) :
    m.Simulates env c (.created (.ok id)) (m.added now id owner) := by
  have hfree : m.active.lookup id = none := (m.owned_eq_none id).mp hmay.2.1
  have hnew : (m.added now id owner).ownerOf m.objects.length = asOwner owner := by
    simp [ownerOf, object, added]
  have hfixed : m.objects.map SessionObject.identity <+:
      (m.added now id owner).objects.map SessionObject.identity := by
    rw [added, List.map_append]
    exact List.prefix_append _ _
  have howned : (m.added now id owner).owned = m.owned.create id (asOwner owner) := by
    funext id'
    by_cases hid : id' = id
    · subst hid
      rw [owned_eq, show (m.added now id' owner).active.lookup id' = some m.objects.length from
        AList.lookup_insert _, Option.map_some, hnew, OwnedMap.create, Function.update_self]
    · rw [owned_eq, show (m.added now id owner).active.lookup id' = m.active.lookup id' from
        AList.lookup_insert_ne hid, OwnedMap.create, Function.update_of_ne hid, owned_eq]
      cases h : m.active.lookup id' with
      | none => rfl
      | some ref =>
          exact congrArg some (ownerOf_eq_of_identity (object_identity hfixed (hw id' ref h).1).2)
  refine
    { spec := fun op hop => ?_
      frame := fun h => by rw [hc] at h; exact absurd h (by simp)
      kept := fun id' ref h => .inl ?_
      fresh := fun id' ref h => ?_
      fixed := hfixed
      found := fun _ _ _ h => nomatch h
      failed := fun _ h => nomatch h }
  · rw [hc, Option.some.injEq] at hop
    subst hop
    exact ⟨iff_of_true rfl hmay, howned⟩
  · have hid : id' ≠ id := by
      intro hid
      rw [hid, hfree] at h
      exact absurd h (by simp)
    exact (AList.lookup_insert_ne hid).trans h
  · by_cases hid : id' = id
    · rw [hid, added, AList.lookup_insert] at h
      exact .inr (Option.some.inj h).symm
    · exact .inl ((AList.lookup_insert_ne hid).symm.trans h)

/-- The end of a creation whose other conditions are met. -/
theorem simulates_of_construct {c : Call} {id owner : Bytes} {limit : Option Nat} {ready : Bool}
    (hc : c.op env = some (.create id (asOwner owner) limit ready))
    (hmay : m.owned.MayCreate id limit ready ↔ env.connects = true) :
    m.Simulates env c (.created (m.construct env id owner).1) (m.construct env id owner).2 := by
  rw [construct]
  split
  · rename_i hopen
    exact simulates_of_error hw _ hc (by simp [hmay, Env.connects, hopen])
  · rename_i hthrows
    exact simulates_of_error hw _ hc (by simp [hmay, Env.connects, hthrows])
  · rename_i hopen hthrows
    exact simulates_of_added hw env.now hc (hmay.mpr (by simp [Env.connects, hopen, hthrows]))

omit hw in
/-- An entry is erased. -/
theorem simulates_of_erase {c : Call} (id : Bytes) {ok : Bool}
    (hc : ∀ op, c.op env = some op →
      OwnedMap.Spec m.owned op (.done ok) (m.owned.erase id)) (hsome : c.op env ≠ none) :
    m.Simulates env c (.removed ok) { m with active := m.active.erase id } := by
  have howned : SessionManager.owned { m with active := m.active.erase id } = m.owned.erase id :=
    OwnedMap.ofAList_erase _ _ _
  exact
    { spec := fun op hop => by rw [howned]; exact hc op hop
      frame := fun h => absurd h hsome
      kept := fun _ _ h => kept_of_erase id h
      fresh := fun _ _ h => .inl (lookup_of_erase h)
      fixed := List.prefix_rfl
      found := fun _ _ _ h => nomatch h
      failed := fun _ h => nomatch h }

/-! ## Each method -/

theorem createNewConnection_simulates (id : Bytes) :
    m.Simulates env (.createNewConnection id) (.created (m.createNewConnection env id).1)
      (m.createNewConnection env id).2 := by
  rw [createNewConnection]
  by_cases h : (m.active.lookup id).isSome = true
  · rw [if_pos h]
    exact simulates_of_error hw _ rfl fun hmay => by simp [(m.owned_eq_none id).mp hmay.2.1] at h
  · rw [if_neg h]
    have hfree := (m.owned_eq_none id).mpr (by simpa using h)
    exact simulates_of_construct hw rfl ⟨fun hmay => hmay.1, fun hready => ⟨hready, hfree, by simp⟩⟩

theorem createOwnedSession_simulates (id owner : Bytes) :
    m.Simulates env (.createOwnedSession id owner) (.created (m.createOwnedSession env id owner).1)
      (m.createOwnedSession env id owner).2 := by
  set limit := readMaxSessions env.settingOpen env.maxSessionsSetting with hlimit
  have hmay : m.owned.MayCreate id (some limit) (isValidPrincipalHex owner && env.connects) ↔
      isValidPrincipalHex owner = true ∧ m.active.entries.length < limit ∧ m.active.lookup id = none ∧
        env.connects = true := by
    rw [OwnedMap.MayCreate, owned_eq_none, owned, OwnedMap.ncard_live, Bool.and_eq_true]
    simp only [Option.mem_def, Option.some.injEq, forall_eq']
    tauto
  have herror : ∀ e, ¬ m.owned.MayCreate id (some limit) (isValidPrincipalHex owner && env.connects) →
      m.Simulates env (.createOwnedSession id owner) (.created (.error e)) m :=
    fun e => simulates_of_error hw e rfl
  rw [createOwnedSession]
  by_cases howner : isValidPrincipalHex owner = false
  · rw [if_pos howner]
    exact herror _ fun h => Bool.false_ne_true (howner.symm.trans (hmay.mp h).1)
  rw [if_neg howner]
  dsimp only
  rw [← hlimit]
  by_cases hfull : m.active.entries.length ≥ limit
  · rw [if_pos hfull]
    exact herror _ fun h => by have := (hmay.mp h).2.1; omega
  rw [if_neg hfull]
  by_cases hid : (m.active.lookup id).isSome = true
  · rw [if_pos hid]
    exact herror _ fun h => by simp [(hmay.mp h).2.2.1] at hid
  · rw [if_neg hid]
    refine simulates_of_construct hw rfl (hmay.trans ⟨fun h => h.2.2.2, fun h => ?_⟩)
    exact ⟨by simpa using howner, by omega, by simpa using hid, h⟩

theorem getConnection_simulates (id : Bytes) :
    m.Simulates env (.getConnection id) (.found (m.getConnection id)) m := by
  apply simulates_of_same hw rfl rfl
  · intro op hop
    rw [Call.op, Option.some.injEq] at hop
    subst hop
    refine ⟨?_, rfl⟩
    rw [ne_eq, owned_eq_none, ← ne_eq, Option.ne_none_iff_isSome]
    exact Iff.rfl
  · rintro id' ref (h | ⟨p, h⟩) ha
    · rw [Call.getConnection.injEq] at h
      rw [← h]
      exact Answer.found.inj ha
    · exact absurd h (by simp)
  · exact fun _ h => nomatch h

theorem disconnectConnection_simulates (id : Bytes) :
    m.Simulates env (.disconnectConnection id) (.removed (m.disconnectConnection id).1)
      (m.disconnectConnection id).2 := by
  rw [disconnectConnection]
  cases h : m.active.lookup id with
  | none =>
      have hnone : m.owned id = none := (m.owned_eq_none id).mpr h
      apply simulates_of_same hw rfl rfl
      · intro op hop
        rw [Call.op, Option.some.injEq] at hop
        subst hop
        refine ⟨⟨(by simp), fun h => absurd hnone h⟩, ?_⟩
        rw [OwnedMap.erase, ← hnone, Function.update_eq_self]
      · exact found_of_not_looksUp rfl
      · exact fun _ h => by cases h
  | some ref =>
      apply simulates_of_erase id _ (by simp [Call.op])
      intro op hop
      rw [Call.op, Option.some.injEq] at hop
      subst hop
      exact ⟨⟨fun _ => by rw [ne_eq, owned_eq_none, h]; simp, fun _ => rfl⟩, rfl⟩

omit hw in
/-- The owner check of `LookupOwnedSession` and `DestroyOwnedSession`. -/
theorem owned_eq_some {id p : Bytes} :
    m.owned id = some (asOwner p) ↔
      ∃ ref, m.active.lookup id = some ref ∧ (m.object ref).ownerPrincipalId = p := by
  rw [owned_eq, Option.map_eq_some_iff]
  simp only [ownerOf, asOwner_inj]

theorem lookupOwnedSession_simulates (id p : Bytes) :
    m.Simulates env (.lookupOwnedSession id p) (.found (m.lookupOwnedSession id p)) m := by
  have hiff : ∀ ref, m.lookupOwnedSession id p = some ref ↔
      m.active.lookup id = some ref ∧ (m.object ref).ownerPrincipalId = p := by
    intro ref
    rw [lookupOwnedSession]
    cases h : m.active.lookup id with
    | none => simp
    | some ref' =>
        by_cases hp : (m.object ref').ownerPrincipalId = p
        · simp only [hp, ne_eq, not_true_eq_false, if_false, Option.some.injEq]
          exact ⟨fun h => ⟨h, h ▸ hp⟩, fun h => h.1⟩
        · simp only [ne_eq, hp, not_false_eq_true, if_true, Option.some.injEq]
          exact ⟨(fun h => nomatch h), fun h => absurd (h.1 ▸ h.2) hp⟩
  apply simulates_of_same hw rfl rfl
  · intro op hop
    rw [Call.op, Option.some.injEq] at hop
    subst hop
    refine ⟨?_, rfl⟩
    rw [owned_eq_some, Option.isSome_iff_exists]
    exact exists_congr hiff
  · rintro id' ref (h | ⟨p', h⟩) ha
    · exact nomatch h
    · obtain ⟨rfl, -⟩ := Call.lookupOwnedSession.inj h
      exact ((hiff ref).mp (Answer.found.inj ha)).1
  · exact fun _ h => nomatch h

theorem destroyOwnedSession_simulates (id p : Bytes) :
    m.Simulates env (.destroyOwnedSession id p) (.removed (m.destroyOwnedSession id p).1)
      (m.destroyOwnedSession id p).2 := by
  -- a session that is not there, or not theirs, is left alone
  have hstay : m.owned id ≠ some (asOwner p) →
      m.Simulates env (.destroyOwnedSession id p) (.removed false) m := by
    intro hne
    apply simulates_of_same hw rfl rfl
    · intro op hop
      rw [Call.op, Option.some.injEq] at hop
      subst hop
      exact ⟨⟨(fun h => nomatch h), fun h => absurd h hne⟩, (if_neg hne).symm⟩
    · exact found_of_not_looksUp rfl
    · exact fun _ h => nomatch h
  rw [destroyOwnedSession]
  cases h : m.active.lookup id with
  | none =>
      apply hstay
      rw [(m.owned_eq_none id).mpr h]
      simp
  | some ref =>
      by_cases hp : (m.object ref).ownerPrincipalId = p
      · have howned : m.owned id = some (asOwner p) := owned_eq_some.mpr ⟨ref, h, hp⟩
        simp only [hp, ne_eq, not_true_eq_false, if_false]
        apply simulates_of_erase id _ (by simp [Call.op])
        intro op hop
        rw [Call.op, Option.some.injEq] at hop
        subst hop
        exact ⟨⟨fun _ => howned, fun _ => rfl⟩, (if_pos howned).symm⟩
      · simp only [ne_eq, hp, not_false_eq_true, if_true]
        apply hstay
        rw [ne_eq, owned_eq_some, h]
        rintro ⟨ref', href, hp'⟩
        rw [Option.some.injEq] at href
        exact hp (href ▸ hp')

omit hw in
/-- The loop counts the entries of the principal, and erases their keys. -/
theorem destroyLoop_eq (p : Bytes) : ∀ (rest : List (Sigma fun _ : Bytes => Nat))
    (active : AList fun _ : Bytes => Nat) (n : Nat),
    (m.destroyLoop p rest active n).1 =
        n + (rest.filter fun e => (m.object e.2).ownerPrincipalId = p).length ∧
      ∀ id, (m.destroyLoop p rest active n).2.lookup id =
        if ∃ e ∈ rest, e.1 = id ∧ (m.object e.2).ownerPrincipalId = p then none
        else active.lookup id := by
  intro rest
  induction rest with
  | nil => exact fun active n => ⟨rfl, fun id => by simp [destroyLoop]⟩
  | cons it rest ih =>
      intro active n
      rw [destroyLoop]
      by_cases hp : (m.object it.2).ownerPrincipalId = p
      · rw [if_pos hp]
        obtain ⟨hcount, hlookup⟩ := ih (active.erase it.1) (n + 1)
        refine ⟨?_, fun id => ?_⟩
        · rw [hcount, List.filter_cons_of_pos (by simpa using hp), List.length_cons]
          omega
        · rw [hlookup]
          by_cases hid : it.1 = id
          · rw [if_pos (show ∃ e ∈ it :: rest, _ from ⟨it, List.mem_cons_self, hid, hp⟩), ← hid,
              AList.lookup_erase, ite_self]
          · rw [AList.lookup_erase_ne (Ne.symm hid)]
            exact if_congr (by simp [hid]) rfl rfl
      · rw [if_neg hp]
        obtain ⟨hcount, hlookup⟩ := ih active n
        refine ⟨?_, fun id => ?_⟩
        · rw [hcount, List.filter_cons_of_neg (by simpa using hp)]
        · rw [hlookup]
          exact if_congr (by simp [hp]) rfl rfl

theorem destroyAllOwnedBy_simulates (p : Bytes) :
    m.Simulates env (.destroyAllOwnedBy p) (.destroyed (m.destroyAllOwnedBy p).1)
      (m.destroyAllOwnedBy p).2 := by
  rw [destroyAllOwnedBy]
  -- the empty principal owns nothing that the call takes away
  by_cases hempty : p = []
  · rw [if_pos hempty]
    apply simulates_of_same hw rfl rfl
    · intro op hop
      rw [Call.op, asOwner, if_pos hempty, Option.some.injEq] at hop
      subst hop
      exact ⟨rfl, rfl⟩
    · exact found_of_not_looksUp rfl
    · exact fun _ h => nomatch h
  rw [if_neg hempty]
  obtain ⟨hcount, hlookup⟩ := destroyLoop_eq (m := m) p m.active.entries m.active 0
  have howner : ∀ ref, m.ownerOf ref = some p ↔ (m.object ref).ownerPrincipalId = p := by
    intro ref
    rw [ownerOf, ← asOwner_inj, asOwner, asOwner, if_neg hempty]
  -- an id is erased if it is one of theirs
  have herased : ∀ id, (m.destroyLoop p m.active.entries m.active 0).2.lookup id =
      if m.owned id = some (some p) then none else m.active.lookup id := by
    intro id
    rw [hlookup]
    refine if_congr ?_ rfl rfl
    rw [owned_eq, Option.map_eq_some_iff]
    constructor
    · rintro ⟨⟨id', ref⟩, hmem, rfl, hp⟩
      exact ⟨ref, (OwnedMap.mem_entries_iff _ _ _).mp hmem, (howner ref).mpr hp⟩
    · rintro ⟨ref, href, hp⟩
      exact ⟨⟨id, ref⟩, (OwnedMap.mem_entries_iff _ _ _).mpr href, rfl, (howner ref).mp hp⟩
  refine
    { spec := fun op hop => ?_
      frame := fun h => nomatch h
      kept := fun id ref h => ?_
      fresh := fun id ref h => .inl ?_
      fixed := List.prefix_rfl
      found := ?_
      failed := fun _ h => nomatch h }
  · rw [Call.op, asOwner, if_neg hempty, Option.some.injEq] at hop
    subst hop
    refine ⟨?_, ?_⟩
    · -- the count returned is the number of ids erased
      rw [hcount, owned, OwnedMap.ncard_keysOf, Nat.zero_add]
      congr 1
      apply List.filter_congr
      intro e _
      exact decide_eq_decide.mpr (howner e.2).symm
    · funext id
      show ((m.destroyLoop p m.active.entries m.active 0).2.lookup id).map m.ownerOf =
        if m.owned id = some (some p) then none else m.owned id
      rw [herased]
      by_cases hid : m.owned id = some (some p)
      · rw [if_pos hid, if_pos hid, Option.map_none]
      · rw [if_neg hid, if_neg hid, owned_eq]
  · rw [herased]
    by_cases hid : m.owned id = some (some p)
    · rw [if_pos hid]
      exact .inr rfl
    · rw [if_neg hid]
      exact .inl h
  · rw [herased] at h
    split_ifs at h
    exact h
  · exact found_of_not_looksUp rfl

theorem interruptSession_simulates (id : Bytes) (cause : InterruptCause) :
    m.Simulates env (.interruptSession id cause) (.removed (m.interruptSession id cause).1)
      (m.interruptSession id cause).2 := by
  have hspec : ∀ op, (Call.interruptSession id cause).op env = some op →
      OwnedMap.Spec m.owned op (Answer.removed (m.active.lookup id).isSome).said m.owned := by
    intro op hop
    rw [Call.op, Option.some.injEq] at hop
    subst hop
    refine ⟨?_, rfl⟩
    rw [ne_eq, owned_eq_none, ← ne_eq, Option.ne_none_iff_isSome]
  rw [interruptSession]
  cases h : m.active.lookup id with
  | none =>
      rw [h] at hspec
      apply simulates_of_same hw rfl rfl hspec
      · exact found_of_not_looksUp rfl
      · exact fun _ h => nomatch h
  | some ref =>
      rw [h] at hspec
      apply simulates_of_write hw ref (f := fun s => { s with interruptCause := cause })
        (fun _ => rfl) hspec
      · exact found_of_not_looksUp rfl
      · exact fun _ h => nomatch h

theorem snapshot_simulates (n : Nat) :
    m.Simulates env (.snapshot n) (.snapshots (m.snapshot n)) m := by
  apply simulates_of_same hw rfl rfl
  · intro op hop
    rw [Call.op, Option.some.injEq] at hop
    subst hop
    refine ⟨fun id owner => ?_, rfl⟩
    rw [snapshot, List.map_map, List.mem_map, owned_eq, Option.map_eq_some_iff]
    constructor
    · rintro ⟨⟨id', ref⟩, hmem, h⟩
      have href := (OwnedMap.mem_entries_iff _ _ _).mp hmem
      obtain ⟨hid, howner⟩ := Prod.mk.inj h
      refine ⟨ref, ?_, howner⟩
      rw [← hid]
      exact (hw id' ref href).2 ▸ href
    · rintro ⟨ref, href, howner⟩
      refine ⟨⟨id, ref⟩, (OwnedMap.mem_entries_iff _ _ _).mpr href, ?_⟩
      exact Prod.ext (hw id ref href).2 howner
  · exact found_of_not_looksUp rfl
  · exact fun _ h => nomatch h

/-- What any call does. -/
theorem call_simulates (c : Call) :
    m.Simulates env c (m.call env c).1 (m.call env c).2 := by
  cases c with
  | createNewConnection id => exact createNewConnection_simulates hw id
  | createOwnedSession id owner => exact createOwnedSession_simulates hw id owner
  | getConnection id => exact getConnection_simulates hw id
  | disconnectConnection id => exact disconnectConnection_simulates hw id
  | lookupOwnedSession id p => exact lookupOwnedSession_simulates hw id p
  | destroyOwnedSession id p => exact destroyOwnedSession_simulates hw id p
  | destroyAllOwnedBy p => exact destroyAllOwnedBy_simulates hw p
  | interruptSession id cause => exact interruptSession_simulates hw id cause
  | snapshot n => exact snapshot_simulates hw n
  | runQuery ref lastQuery queryInFlight =>
      apply simulates_of_write hw ref (f := fun s => { s with lastQuery, queryInFlight })
        fun _ => rfl
      · exact fun _ h => nomatch h
      · exact found_of_not_looksUp rfl
      · exact fun _ h => nomatch h

end

/-! ## Runs -/

/-- New entries are those that `added` makes. -/
theorem added_wellKept (hw : m.WellKept) (now : Nat) (id owner : Bytes) :
    (m.added now id owner).WellKept := by
  intro id' ref h
  by_cases hid : id' = id
  · rw [hid, added, AList.lookup_insert, Option.some.injEq] at h
    subst h
    simp [added, object, hid]
  · have hold := hw id' ref ((AList.lookup_insert_ne hid).symm.trans h)
    have hlen : (m.added now id owner).objects.length = m.objects.length + 1 := by simp [added]
    refine ⟨by omega, ?_⟩
    simpa [added, object, List.getElem?_append_left hold.1] using hold.2

theorem construct_wellKept (hw : m.WellKept) (env : Env) (id owner : Bytes) :
    (m.construct env id owner).2.WellKept := by
  rw [construct]
  split
  · exact hw
  · exact hw
  · exact added_wellKept hw env.now id owner

theorem call_wellKept (hw : m.WellKept) (env : Env) (c : Call) : (m.call env c).2.WellKept := by
  have hsim : m.Simulates env c (m.call env c).1 (m.call env c).2 := call_simulates hw c
  -- all but the creations leave entries that were there before
  have hsub : (∀ id ref, (m.call env c).2.active.lookup id = some ref →
      m.active.lookup id = some ref) → (m.call env c).2.WellKept := hw.of_fixed hsim.fixed
  cases c with
  | createNewConnection id =>
      show (m.createNewConnection env id).2.WellKept
      rw [createNewConnection]
      split
      · exact hw
      · exact construct_wellKept hw env id []
  | createOwnedSession id owner =>
      show (m.createOwnedSession env id owner).2.WellKept
      rw [createOwnedSession]
      dsimp only
      split_ifs
      · exact hw
      · exact hw
      · exact hw
      · exact construct_wellKept hw env id owner
  | getConnection id => exact hsub fun _ _ h => h
  | disconnectConnection id =>
      apply hsub
      intro id' ref h
      rw [call, disconnectConnection] at h
      split at h
      · exact h
      · exact lookup_of_erase h
  | lookupOwnedSession id p => exact hsub fun _ _ h => h
  | destroyOwnedSession id p =>
      apply hsub
      intro id' ref h
      rw [call, destroyOwnedSession] at h
      split at h
      · exact h
      · split_ifs at h
        · exact h
        · exact lookup_of_erase h
  | destroyAllOwnedBy p =>
      apply hsub
      intro id' ref h
      rw [call, destroyAllOwnedBy] at h
      split_ifs at h
      · exact h
      · dsimp only at h
        -- the loop only erases
        rw [(destroyLoop_eq p m.active.entries m.active 0).2] at h
        split_ifs at h
        exact h
  | interruptSession id cause =>
      apply hsub
      intro id' ref h
      rw [call, interruptSession] at h
      split at h <;> exact h
  | snapshot n => exact hsub fun _ _ h => h
  | runQuery ref lastQuery queryInFlight => exact hsub fun _ _ h => h

theorem run_wellKept (calls : List (Env × Call)) :
    ∀ m : SessionManager, m.WellKept → (run m calls).WellKept := by
  induction calls with
  | nil => exact fun m hw => hw
  | cons c calls ih => exact fun m hw => ih _ (call_wellKept hw c.1 c.2)

theorem run_fixed (calls : List (Env × Call)) : ∀ m : SessionManager, m.WellKept →
    m.objects.map SessionObject.identity <+:
      (run m calls).objects.map SessionObject.identity := by
  induction calls with
  | nil => exact fun m _ => List.prefix_rfl
  | cons c calls ih =>
      intro m hw
      exact (call_simulates hw c.2).fixed.trans (ih _ (call_wellKept hw c.1 c.2))

theorem empty_wellKept : WellKept {} := fun _ _ h => nomatch h

/-- **`SessionManager` is an owned map.** After any calls from the empty manager, every key is the id of
its session; no session changes its owner, whatever is called then; and every call does what it is to do on
the owned map: a creation succeeds exactly when the owner is valid, the id is not live, the limit is not
reached and the database gives a connection, and changes nothing when it fails. -/
theorem manager_refines (calls : List (Env × Call)) :
    (∀ id ref, (run {} calls).active.lookup id = some ref →
        ref < (run {} calls).objects.length ∧ ((run {} calls).object ref).sessionId = id) ∧
      (∀ later ref, ref < (run {} calls).objects.length →
        ((run (run {} calls) later).object ref).identity =
          ((run {} calls).object ref).identity) ∧
      ∀ env c, (run {} calls).Simulates env c ((run {} calls).call env c).1
        ((run {} calls).call env c).2 := by
  have hw := run_wellKept calls {} empty_wellKept
  refine ⟨hw, fun later ref href => ?_, fun env c => call_simulates hw c⟩
  exact (object_identity (run_fixed later _ hw) href).2

def principal : Bytes := List.replicate 64 0x61

/-- A session without an owner, and one with an owner that reaches a limit of two. -/
theorem manager_refines_ownedSession :
    let env : Env := { maxSessionsSetting := some 2 }
    let m := run {} [(env, .createNewConnection (lit "quack")), (env, .createOwnedSession (lit "sql") principal)]
    m.owned (lit "quack") = some none ∧ m.owned (lit "sql") = some (some principal) ∧
      (m.createOwnedSession env (lit "other") principal).1 = .error (.create (.sessionLimit 2)) ∧
      m.Simulates env (.createOwnedSession (lit "other") principal)
        (.created (.error (.create (.sessionLimit 2)))) m ∧
      m.Simulates env (.destroyAllOwnedBy principal) (.destroyed 1)
        { m with active := m.active.erase (lit "sql") } := by
  intro env m
  have hcalls := (manager_refines [(env, .createNewConnection (lit "quack")),
    (env, .createOwnedSession (lit "sql") principal)]).2.2 env
  exact ⟨by rfl, by rfl, by rfl,
    hcalls (.createOwnedSession (lit "other") principal), hcalls (.destroyAllOwnedBy principal)⟩

end SessionManager

end Harbor.Session
