import Mathlib.Data.List.AList
import Harbor.Lib.Bytes

set_option autoImplicit false

/-! # The watcher

`Watcher::Watch` polls the attached databases and sends an event when a catalog has changed since the last
poll. `WasCatalogUpdated` keeps a map from the numbers of the databases to the versions of their catalogs
up to date; what it stands for is the snapshot of the databases at the last poll.
-/

namespace Harbor.Ui.Watcher

/-- An attached database, as far as the watcher looks at it. -/
structure AttachedDatabase where
  oid : Nat
  isTemporary : Bool
  catalogVersion : Option Nat
deriving DecidableEq, Repr

/-- `CatalogState::db_to_catalog_version`. -/
abbrev CatalogState := AList fun _ : Nat => Option Nat

/-- The loop over the attached databases: whether something has changed, their numbers, and the map. -/
def checkAttached : List AttachedDatabase → Bool × List Nat × CatalogState →
    Bool × List Nat × CatalogState
  | [], found => found
  | db :: databases, (hasChange, oids, last) =>
      if db.isTemporary then checkAttached databases (hasChange, oids, last)
      else if last.lookup db.oid = some db.catalogVersion then
        checkAttached databases (hasChange, db.oid :: oids, last)
      else checkAttached databases (true, db.oid :: oids, last.insert db.oid db.catalogVersion)

/-- The loop over the map, which erases the databases that are not attached any more. -/
def eraseDetached (oids : List Nat) : List Nat → Bool × CatalogState → Bool × CatalogState
  | [], found => found
  | oid :: keys, (hasChange, last) =>
      if oid ∈ oids then eraseDetached oids keys (hasChange, last)
      else eraseDetached oids keys (true, last.erase oid)

/-- `WasCatalogUpdated`. -/
def wasCatalogUpdated (databases : List AttachedDatabase) (last : CatalogState) : Bool × CatalogState :=
  let (hasChange, oids, current) := checkAttached databases (false, [], last)
  eraseDetached oids current.keys (hasChange, current)

/-- What a poll sees: the attached databases, the answer of `IsMDConnected` and that of `GetMDToken`, which
is empty when it finds MotherDuck gone again. Each may be an exception. -/
structure Poll where
  databases : Except Bytes (List AttachedDatabase)
  mdConnected : Except Bytes Bool := .ok false
  token : Except Bytes Bytes := .ok []
deriving Repr

inductive Event where
  | catalogChanged
  | connected (token : Bytes)
deriving DecidableEq, Repr

/-- The message that is sent for an event. -/
def Event.message : Event → Bytes
  | .catalogChanged => lit "event: CatalogChangeEvent\ndata:\n\n"
  | .connected token => lit "event: ConnectedEvent\ndata: " ++ token ++ lit "\n\n"

/-- The local variables of `Watch`. -/
structure State where
  lastState : CatalogState := ∅
  isMdConnected : Bool := false

/-- One round of the loop of `Watch`: the state for the next one, unless an exception ends the watcher, and
the events that were sent. -/
def round (s : State) (poll : Poll) : Option State × List Event :=
  match poll.databases with
  | .error _ => (none, [])
  | .ok databases =>
      let (updated, lastState) := wasCatalogUpdated databases s.lastState
      let changed := if updated then [.catalogChanged] else []
      if s.isMdConnected then (some ⟨lastState, true⟩, changed)
      else
        match poll.mdConnected with
        | .error _ => (none, changed)
        | .ok false => (some ⟨lastState, false⟩, changed)
        | .ok true =>
            match poll.token with
            | .error _ => (none, changed)
            | .ok token => (some ⟨lastState, true⟩, changed ++ [.connected token])

/-- The events of the rounds there are. -/
def watch : State → List Poll → List (List Event)
  | _, [] => []
  | s, poll :: polls =>
      (round s poll).2 ::
        match (round s poll).1 with
        | none => []
        | some s => watch s polls

/-! ## Snapshots -/

/-- The catalog versions of the databases that are not temporary. -/
def snapshot (databases : List AttachedDatabase) (oid : Nat) : Option (Option Nat) :=
  (databases.find? fun db => !db.isTemporary && db.oid == oid).map AttachedDatabase.catalogVersion

/-- The databases that the watcher looks at have different numbers. -/
def Distinct (databases : List AttachedDatabase) : Prop :=
  ((databases.filter fun db => !db.isTemporary).map AttachedDatabase.oid).Nodup

theorem snapshot_cons_temporary {db : AttachedDatabase} (h : db.isTemporary = true)
    (databases : List AttachedDatabase) : snapshot (db :: databases) = snapshot databases := by
  funext oid
  rw [snapshot, List.find?_cons_of_neg (by simp [h])]
  rfl

theorem snapshot_cons {db : AttachedDatabase} (h : db.isTemporary = false)
    (databases : List AttachedDatabase) (oid : Nat) :
    snapshot (db :: databases) oid =
      if db.oid = oid then some db.catalogVersion else snapshot databases oid := by
  by_cases hoid : db.oid = oid
  · rw [snapshot, List.find?_cons_of_pos (by simp [h, hoid]), if_pos hoid]
    rfl
  · rw [snapshot, List.find?_cons_of_neg (by simp [hoid]), if_neg hoid]
    rfl

theorem mem_of_snapshot {databases : List AttachedDatabase} {oid : Nat}
    (h : (snapshot databases oid).isSome) :
    oid ∈ (databases.filter fun db => !db.isTemporary).map AttachedDatabase.oid := by
  rw [snapshot, Option.isSome_map] at h
  obtain ⟨db, hfind⟩ := Option.isSome_iff_exists.mp h
  have hdb := List.find?_some hfind
  rw [Bool.and_eq_true, beq_iff_eq] at hdb
  exact List.mem_map.mpr ⟨db, List.mem_filter.mpr ⟨List.mem_of_find?_eq_some hfind, hdb.1⟩, hdb.2⟩

/-- Distinct numbers: the first database is not looked at again. -/
theorem Distinct.cons {db : AttachedDatabase} {databases : List AttachedDatabase}
    (h : Distinct (db :: databases)) :
    Distinct databases ∧ (db.isTemporary = false → snapshot databases db.oid = none) := by
  unfold Distinct at h ⊢
  cases htemporary : db.isTemporary with
  | true =>
      rw [List.filter_cons_of_neg (by simp [htemporary])] at h
      exact ⟨h, fun hfalse => by cases hfalse⟩
  | false =>
      rw [List.filter_cons_of_pos (by simp [htemporary]), List.map_cons, List.nodup_cons] at h
      refine ⟨h.2, fun _ => ?_⟩
      by_contra hsome
      exact h.1 (mem_of_snapshot (Option.isSome_iff_ne_none.mpr hsome))

/-- The first loop: the map gets the snapshot where there is one, and stays as it is elsewhere; something
has changed where the two were not the same. -/
theorem checkAttached_spec (databases : List AttachedDatabase) :
    ∀ {hasChange : Bool} {oids : List Nat} {last : CatalogState}, Distinct databases →
      ((checkAttached databases (hasChange, oids, last)).1 = true ↔
        hasChange = true ∨ ∃ oid, (snapshot databases oid).isSome ∧
          last.lookup oid ≠ snapshot databases oid) ∧
      (∀ oid, oid ∈ (checkAttached databases (hasChange, oids, last)).2.1 ↔
        oid ∈ oids ∨ (snapshot databases oid).isSome) ∧
      ∀ oid, (checkAttached databases (hasChange, oids, last)).2.2.lookup oid =
        (snapshot databases oid).or (last.lookup oid) := by
  induction databases with
  | nil =>
      intro hasChange oids last _
      simp [checkAttached, snapshot]
  | cons db databases ih =>
      intro hasChange oids last hdistinct
      obtain ⟨hrest, hnew⟩ := hdistinct.cons
      unfold checkAttached
      cases htemporary : db.isTemporary with
      | true =>
          rw [if_pos rfl, snapshot_cons_temporary htemporary]
          exact ih hrest
      | false =>
          rw [if_neg Bool.false_ne_true]
          have hnew := hnew htemporary
          have hcons := snapshot_cons htemporary databases
          by_cases hsame : last.lookup db.oid = some db.catalogVersion
          · rw [if_pos hsame]
            obtain ⟨hchange, hoids, hlookup⟩ := @ih hasChange (db.oid :: oids) last hrest
            refine ⟨hchange.trans (or_congr_right (exists_congr fun oid => ?_)), fun oid => ?_,
              fun oid => ?_⟩
            · rw [hcons]
              split
              · rename_i hoid
                subst hoid
                simp [hnew, hsame]
              · rfl
            · rw [hoids, hcons, List.mem_cons]
              split
              · rename_i hoid
                simp [hoid]
              · rename_i hoid
                simp [Ne.symm hoid]
            · rw [hlookup, hcons]
              split
              · rename_i hoid
                subst hoid
                rw [hnew, hsame]
                rfl
              · rfl
          · rw [if_neg hsame]
            obtain ⟨hchange, hoids, hlookup⟩ := @ih true (db.oid :: oids)
              (last.insert db.oid db.catalogVersion) hrest
            refine ⟨hchange.trans (iff_of_true (Or.inl rfl) (Or.inr ⟨db.oid, ?_⟩)), fun oid => ?_,
              fun oid => ?_⟩
            · rw [hcons, if_pos rfl]
              exact ⟨rfl, hsame⟩
            · rw [hoids, hcons, List.mem_cons]
              split
              · rename_i hoid
                simp [hoid]
              · rename_i hoid
                simp [Ne.symm hoid]
            · rw [hlookup, hcons]
              split
              · rename_i hoid
                subst hoid
                rw [hnew, AList.lookup_insert]
                rfl
              · rename_i hoid
                rw [AList.lookup_insert_ne (Ne.symm hoid)]

/-- The second loop: what is not attached is erased. -/
theorem eraseDetached_spec (oids keys : List Nat) :
    ∀ {hasChange : Bool} {last : CatalogState},
      ((eraseDetached oids keys (hasChange, last)).1 = true ↔
        hasChange = true ∨ ∃ oid ∈ keys, oid ∉ oids) ∧
      ∀ oid, (eraseDetached oids keys (hasChange, last)).2.lookup oid =
        if oid ∈ keys ∧ oid ∉ oids then none else last.lookup oid := by
  induction keys with
  | nil =>
      intro hasChange last
      simp [eraseDetached]
  | cons key keys ih =>
      intro hasChange last
      unfold eraseDetached
      by_cases hkey : key ∈ oids
      · rw [if_pos hkey]
        obtain ⟨hchange, hlookup⟩ := @ih hasChange last
        refine ⟨hchange.trans (by simp [hkey]), fun oid => ?_⟩
        rw [hlookup]
        by_cases hoid : oid = key
        · simp [hoid, hkey]
        · simp [hoid]
      · rw [if_neg hkey]
        obtain ⟨hchange, hlookup⟩ := @ih true (last.erase key)
        refine ⟨hchange.trans (by simp [hkey]), fun oid => ?_⟩
        rw [hlookup]
        by_cases hoid : oid = key
        · rw [hoid, AList.lookup_erase]
          simp [hkey]
        · rw [AList.lookup_erase_ne hoid]
          simp [hoid]

/-- **One poll.** The map becomes the snapshot, and a change is reported exactly if it was another one. -/
theorem wasCatalogUpdated_spec {databases : List AttachedDatabase} (hdistinct : Distinct databases)
    (last : CatalogState) :
    (fun oid => (wasCatalogUpdated databases last).2.lookup oid) = snapshot databases ∧
      ((wasCatalogUpdated databases last).1 = true ↔ (fun oid => last.lookup oid) ≠ snapshot databases) := by
  obtain ⟨hchange, hoids, hlookup⟩ := @checkAttached_spec databases false [] last hdistinct
  unfold wasCatalogUpdated
  generalize checkAttached databases (false, [], last) = found at hchange hoids hlookup ⊢
  obtain ⟨hasChange, oids, current⟩ := found
  dsimp only at hchange hoids hlookup ⊢
  obtain ⟨hchange', hlookup'⟩ := @eraseDetached_spec oids current.keys hasChange current
  have hmem : ∀ oid, oid ∈ oids ↔ (snapshot databases oid).isSome := by
    intro oid
    rw [hoids]
    simp
  have hkeys : ∀ oid, oid ∈ current.keys ↔ (current.lookup oid).isSome := by
    intro oid
    rw [AList.lookup_isSome]
    rfl
  constructor
  · funext oid
    rw [hlookup']
    simp only [hmem, hkeys, hlookup]
    cases hsnapshot : snapshot databases oid with
    | none => cases last.lookup oid <;> simp
    | some version => simp
  · rw [hchange', hchange, Function.ne_iff]
    constructor
    · rintro ((hfalse | ⟨oid, -, hne⟩) | ⟨oid, hkey, hnot⟩)
      · cases hfalse
      · exact ⟨oid, hne⟩
      · -- it is in the map, and in no snapshot
        rw [hmem, Bool.not_eq_true, Option.isSome_eq_false_iff, Option.isNone_iff_eq_none] at hnot
        rw [hkeys, hlookup, hnot, Option.none_or] at hkey
        refine ⟨oid, fun heq => ?_⟩
        rw [heq, hnot] at hkey
        cases hkey
    · rintro ⟨oid, hne⟩
      cases hsnapshot : snapshot databases oid with
      | some version =>
          rw [hsnapshot] at hne
          exact Or.inl (Or.inr ⟨oid, by rw [hsnapshot]; rfl, by rw [hsnapshot]; exact hne⟩)
      | none =>
          rw [hsnapshot] at hne
          refine Or.inr ⟨oid, ?_, ?_⟩
          · rw [hkeys, hlookup, hsnapshot, Option.none_or]
            exact Option.isSome_iff_ne_none.mpr hne
          · rw [hmem, hsnapshot]
            exact Bool.false_ne_true

/-! ## The loop -/

/-- What a poll stands for in the map. -/
def Poll.snapshot (poll : Poll) : Nat → Option (Option Nat) :=
  Watcher.snapshot (poll.databases.toOption.getD [])

/-- The snapshot of the poll before poll `k`; before the first one there is none. -/
def previousSnapshot (polls : List Poll) (k : Nat) : Nat → Option (Option Nat) :=
  match k with
  | 0 => fun _ => none
  | k + 1 => (polls[k]?.map Poll.snapshot).getD fun _ => none

/-- Poll `k` asks for MotherDuck: no poll has found it before. -/
def Asks (connected : Bool) (polls : List Poll) (k : Nat) : Prop :=
  connected = false ∧ ∀ j < k, ∀ earlier, polls[j]? = some earlier → earlier.mdConnected ≠ .ok true

/-- An exception of the poll ends the watcher. -/
def Poll.Throws (asks : Prop) (poll : Poll) : Prop :=
  (∃ what, poll.databases = .error what) ∨
    asks ∧ ((∃ what, poll.mdConnected = .error what) ∨
      poll.mdConnected = .ok true ∧ ∃ what, poll.token = .error what)

/-- The watcher comes to poll `k`. -/
def Made (connected : Bool) (polls : List Poll) (k : Nat) : Prop :=
  ∀ j < k, ∀ earlier, polls[j]? = some earlier → ¬ earlier.Throws (Asks connected polls j)

theorem forall_earlier_succ {P : Nat → Poll → Prop} {first : Poll} {polls : List Poll} {k : Nat} :
    (∀ j < k + 1, ∀ earlier, (first :: polls)[j]? = some earlier → P j earlier) ↔
      P 0 first ∧ ∀ j < k, ∀ earlier, polls[j]? = some earlier → P (j + 1) earlier := by
  constructor
  · intro hall
    exact ⟨hall 0 (Nat.succ_pos k) first rfl,
      fun j hj earlier hearlier => hall (j + 1) (Nat.succ_lt_succ hj) earlier hearlier⟩
  · rintro ⟨hfirst, hrest⟩ j hj earlier hearlier
    cases j with
    | zero =>
        rw [List.getElem?_cons_zero] at hearlier
        exact Option.some.inj hearlier ▸ hfirst
    | succ j => exact hrest j (Nat.lt_of_succ_lt_succ hj) earlier hearlier

section Next

variable {first : Poll} {polls : List Poll} {connected next : Bool}

theorem asks_succ (hnext : next = false ↔ connected = false ∧ first.mdConnected ≠ .ok true) (k : Nat) :
    Asks connected (first :: polls) (k + 1) ↔ Asks next polls k := by
  rw [Asks, Asks, hnext, forall_earlier_succ, and_assoc]

theorem made_succ (hnext : next = false ↔ connected = false ∧ first.mdConnected ≠ .ok true) (k : Nat) :
    Made connected (first :: polls) (k + 1) ↔
      ¬ first.Throws (connected = false) ∧ Made next polls k := by
  rw [Made, forall_earlier_succ, Made]
  refine and_congr ?_ (forall_congr' fun j => ?_)
  · simp [Asks]
  · rw [asks_succ hnext]

end Next

/-- What is left behind by a round without an exception. -/
theorem round_cases (s : State) (poll : Poll) :
    (round s poll).1 = none ∧ poll.Throws (s.isMdConnected = false) ∨
      ¬ poll.Throws (s.isMdConnected = false) ∧ ∃ t, (round s poll).1 = some t ∧
        (fun oid => t.lastState.lookup oid) =
          (fun oid => (wasCatalogUpdated (poll.databases.toOption.getD []) s.lastState).2.lookup oid) ∧
        (t.isMdConnected = false ↔ s.isMdConnected = false ∧ poll.mdConnected ≠ .ok true) := by
  unfold round Poll.Throws
  cases poll.databases with
  | error what => simp
  | ok databases =>
      cases s.isMdConnected with
      | true => simp [Except.toOption]
      | false =>
          cases poll.mdConnected with
          | error what => simp
          | ok found =>
              cases found with
              | false => simp [Except.toOption]
              | true => cases poll.token <;> simp [Except.toOption]

theorem mem_round {s : State} {poll : Poll} :
    (.catalogChanged ∈ (round s poll).2 ↔ ∃ databases, poll.databases = .ok databases ∧
      (wasCatalogUpdated databases s.lastState).1 = true) ∧
    ∀ token, .connected token ∈ (round s poll).2 ↔ s.isMdConnected = false ∧
      (∃ databases, poll.databases = .ok databases) ∧ poll.mdConnected = .ok true ∧
        poll.token = .ok token := by
  have hsymm : ∀ {a b : Bytes}, a = b ↔ b = a := eq_comm
  unfold round
  cases poll.databases with
  | error what => simp
  | ok databases =>
      generalize hfound : wasCatalogUpdated databases s.lastState = found
      obtain ⟨updated, lastState⟩ := found
      cases s.isMdConnected with
      | true => cases updated <;> simp [hfound]
      | false =>
          cases poll.mdConnected with
          | error what => cases updated <;> simp [hfound]
          | ok connected =>
              cases connected with
              | false => cases updated <;> simp [hfound]
              | true => cases poll.token <;> cases updated <;> simp [hfound, hsymm]

/-- The events of poll `k`, from a state that has the snapshot `seen`. -/
theorem watch_from (polls : List Poll) :
    ∀ {s : State} {seen : Nat → Option (Option Nat)}, (fun oid => s.lastState.lookup oid) = seen →
      (∀ poll ∈ polls, ∀ databases, poll.databases = .ok databases → Distinct databases) →
      ∀ {k : Nat} {poll : Poll}, polls[k]? = some poll →
      ((watch s polls)[k]?.isSome ↔ Made s.isMdConnected polls k) ∧
        ∀ events, (watch s polls)[k]? = some events →
          (.catalogChanged ∈ events ↔ ∃ databases, poll.databases = .ok databases ∧
            (if k = 0 then seen else previousSnapshot polls k) ≠ snapshot databases) ∧
          ∀ token, .connected token ∈ events ↔ Asks s.isMdConnected polls k ∧
            (∃ databases, poll.databases = .ok databases) ∧ poll.mdConnected = .ok true ∧
              poll.token = .ok token := by
  induction polls with
  | nil =>
      intro s seen _ _ k poll hpoll
      simp at hpoll
  | cons first polls ih =>
      intro s seen hseen hdistinct k poll hpoll
      cases k with
      | zero =>
          rw [List.getElem?_cons_zero] at hpoll
          obtain rfl := Option.some.inj hpoll
          rw [watch, List.getElem?_cons_zero]
          refine ⟨iff_of_true rfl fun j hj => absurd hj (Nat.not_lt_zero j), fun events hevents => ?_⟩
          obtain rfl := Option.some.inj hevents
          refine ⟨mem_round.1.trans (exists_congr fun databases => and_congr_right fun hok => ?_),
            fun token => ?_⟩
          · rw [if_pos rfl, ← hseen]
            exact (wasCatalogUpdated_spec (hdistinct first List.mem_cons_self databases hok) s.lastState).2
          · rw [mem_round.2, Asks]
            simp
      | succ k =>
          rw [List.getElem?_cons_succ] at hpoll
          rw [watch, List.getElem?_cons_succ]
          obtain ⟨hnone, hthrows⟩ | ⟨hquiet, t, hsome, hlast, hnext⟩ := round_cases s first
          · -- the watcher has ended
            rw [hnone]
            refine ⟨iff_of_false (by simp) fun hmade => ?_, fun events hevents => by simp at hevents⟩
            have hfirst := hmade 0 (Nat.succ_pos k) first rfl
            simp only [Asks, Nat.not_lt_zero, false_implies, implies_true, and_true] at hfirst
            exact hfirst hthrows
          · have hseen' : (fun oid => t.lastState.lookup oid) = first.snapshot := by
              cases hdatabases : first.databases with
              | error what => exact absurd (Or.inl ⟨what, hdatabases⟩) hquiet
              | ok databases =>
                  rw [hlast, Poll.snapshot, hdatabases]
                  exact (wasCatalogUpdated_spec
                    (hdistinct first List.mem_cons_self databases hdatabases) s.lastState).1
            obtain ⟨hmade, hevents⟩ := @ih t first.snapshot hseen'
              (fun poll hp => hdistinct poll (List.mem_cons_of_mem _ hp)) _ _ hpoll
            rw [hsome]
            refine ⟨hmade.trans ?_, fun events hsent => ?_⟩
            · rw [made_succ hnext]
              exact (and_iff_right hquiet).symm
            · obtain ⟨hchanged, hconnected⟩ := hevents events hsent
              refine ⟨hchanged.trans ?_, fun token => (hconnected token).trans ?_⟩
              · rw [if_neg (Nat.succ_ne_zero k)]
                cases k <;> rfl
              · rw [asks_succ hnext]

/-- **The events of the watcher.** For every sequence of polls: the watcher makes the polls up to the first
that throws. A poll it makes sends a `CatalogChangeEvent` exactly when it sees the databases, and the
catalog versions of those that are not temporary are not those of the poll before (at the first poll:
when there is such a database), and the `ConnectedEvent` exactly when it is the first that finds
MotherDuck connected and it gets the token. -/
theorem watch_events {polls : List Poll}
    (hdistinct : ∀ poll ∈ polls, ∀ databases, poll.databases = .ok databases → Distinct databases)
    {k : Nat} {poll : Poll} (hpoll : polls[k]? = some poll) :
    ((watch {} polls)[k]?.isSome ↔ Made false polls k) ∧
      ∀ events, (watch {} polls)[k]? = some events →
        (.catalogChanged ∈ events ↔ ∃ databases, poll.databases = .ok databases ∧
          previousSnapshot polls k ≠ snapshot databases) ∧
        ∀ token, .connected token ∈ events ↔ Asks false polls k ∧
          (∃ databases, poll.databases = .ok databases) ∧ poll.mdConnected = .ok true ∧
            poll.token = .ok token := by
  obtain ⟨hmade, hevents⟩ := @watch_from polls {} (fun _ => none) rfl hdistinct _ _ hpoll
  refine ⟨hmade, fun events hsent => ?_⟩
  obtain ⟨hchanged, hconnected⟩ := hevents events hsent
  refine ⟨hchanged.trans ?_, hconnected⟩
  cases k <;> rfl

/-- Database 2 goes away; then MotherDuck is there, and its token cannot be had. -/
def detachedPolls : List Poll :=
  [⟨.ok [⟨1, false, some 1⟩, ⟨2, false, none⟩, ⟨2, true, none⟩], .ok false, .ok []⟩,
    ⟨.ok [⟨1, false, some 1⟩], .ok true, .error (lit "no token")⟩, ⟨.ok [], .ok true, .ok (lit "t")⟩]

theorem watch_events_detached :
    let poll : Poll := ⟨.ok [⟨1, false, some 1⟩], .ok true, .error (lit "no token")⟩
    watch {} detachedPolls = [[.catalogChanged], [.catalogChanged]] ∧
      ((watch {} detachedPolls)[1]?.isSome ↔ Made false detachedPolls 1) ∧
      ∀ events, (watch {} detachedPolls)[1]? = some events →
        (.catalogChanged ∈ events ↔ ∃ databases, poll.databases = .ok databases ∧
          previousSnapshot detachedPolls 1 ≠ snapshot databases) ∧
        ∀ token, .connected token ∈ events ↔ Asks false detachedPolls 1 ∧
          (∃ databases, poll.databases = .ok databases) ∧ poll.mdConnected = .ok true ∧
            poll.token = .ok token := by
  intro poll
  refine ⟨by decide, watch_events (fun poll hpoll databases hok => ?_) rfl⟩
  simp only [detachedPolls, List.mem_cons, List.not_mem_nil, or_false] at hpoll
  rcases hpoll with rfl | rfl | rfl <;> cases hok <;> (unfold Distinct; decide)

end Harbor.Ui.Watcher
