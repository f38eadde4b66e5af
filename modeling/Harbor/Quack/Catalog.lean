import Harbor.Lib.Bytes
import Harbor.Lib.KeyedMap
import Harbor.Lib.Runs

set_option autoImplicit false

/-! # The cache of an attached catalog

An attached Quack database answers all lookups from a copy of the server's catalog, which is loaded when
it is attached and by `quack_clear_cache`. A CREATE or DROP is sent to the server and then repeated on the
copy with the conflict policy of the statement. Names are compared without regard to case, but a row of the
load goes to the schema that is spelled as it says.

The engine is a parameter: `Server` is what the session is answered, `Server.Lawful` what is relied on of its
DDL. Its load queries tell of all catalogs of the server; that of the tables and views names none, so that
the views of the system catalog come with those of a schema of the same name. The copy has a view's name
only: its text there is a remote call.
-/

namespace Harbor.Quack.Storage

open Runs
open Harbor.Bytes (lower)

/-! ## Catalogs -/

/-- The types of entry that `DropEntry` lets through. -/
inductive CatalogType where
  | tableEntry
  | viewEntry
deriving DecidableEq, Repr

/-- A table with its columns, or a view with its text. -/
structure Entry where
  type : CatalogType
  name : Bytes
  definition : Bytes
deriving DecidableEq, Repr

def Entry.key (e : Entry) : Bytes := lower e.name

abbrev TableSet := KeyedMap Entry.key

structure Schema where
  name : Bytes
  tables : TableSet := ∅

def Schema.key (s : Schema) : Bytes := lower s.name

abbrev Catalog := KeyedMap Schema.key

/-- `OnCreateConflict`. -/
inductive OnCreateConflict where
  | errorOnConflict
  | ignoreOnConflict
  | replaceOnConflict
deriving DecidableEq, Repr

/-- What is sent through a `QuackTransaction`; a DROP is without CASCADE. -/
inductive Ddl where
  | createSchema (name : Bytes) (onConflict : OnCreateConflict)
  /-- `CreateTable` and `CreateView`. -/
  | create (schema : Bytes) (entry : Entry) (onConflict : OnCreateConflict)
  | dropEntry (schema : Bytes) (type : CatalogType) (name : Bytes) (ifExists : Bool)
deriving DecidableEq, Repr

/-! ## The server -/

/-- A table or view with the catalog it is in, which the load query does not ask for. -/
structure Row where
  catalog : Bytes
  schema : Bytes
  entry : Entry
deriving DecidableEq, Repr

/-- What the session is answered, in the states `σ` of the server. -/
structure Server (σ ω : Type) where
  /-- The answer to `QuackSchemaSet::GetLoadQuery`, catalog and name. -/
  schemas : σ → List (Bytes × Bytes)
  /-- The answer to `QuackTableSet::GetLoadQuery`. -/
  tables : σ → List Row
  /-- The catalog in which a CREATE finds, or makes, a schema of the name. -/
  home : σ → Bytes → Bytes
  /-- The catalog in which a DROP finds the entry of a schema: temporary tables come first. -/
  holder : σ → Bytes → Bytes → Bytes
  /-- A statement, with what else the engine's choice depends on: whether it succeeds, and what it leaves. -/
  exec : σ → Ddl → ω → Bool × σ

/-- The row of a catalog under the names. -/
def Row.At (catalog schema key : Bytes) (r : Row) : Prop :=
  r.catalog = catalog ∧ r.schema = schema ∧ r.entry.key = key

namespace Server

variable {σ ω : Type} (server : Server σ ω)

/-- The answers have the same rows. -/
def Same (s t : σ) : Prop :=
  (∀ x, x ∈ server.schemas t ↔ x ∈ server.schemas s) ∧ ∀ r, r ∈ server.tables t ↔ r ∈ server.tables s

/-- The schema that a CREATE means by the name. -/
def OwnSchema (s : σ) (name : Bytes) (x : Bytes × Bytes) : Prop :=
  x.1 = server.home s name ∧ lower x.2 = lower name

/-- What DuckDB's DDL does to what is listed. A statement that fails changes nothing. A schema or entry that
is there is kept by IF NOT EXISTS and makes a plain CREATE fail; otherwise the new one is there in place of
what was there under its name. A DROP takes away what it names. -/
structure Lawful : Prop where
  refused : ∀ {s d w t}, server.exec s d w = (false, t) → server.Same s t
  createSchema_error : ∀ {s n w t}, server.exec s (.createSchema n .errorOnConflict) w = (true, t) →
    ∀ x ∈ server.schemas s, ¬ server.OwnSchema s n x
  createSchema_ignore : ∀ {s n w t}, server.exec s (.createSchema n .ignoreOnConflict) w = (true, t) →
    (∃ x ∈ server.schemas s, server.OwnSchema s n x) → server.Same s t
  createSchema_new : ∀ {s n p w t}, server.exec s (.createSchema n p) w = (true, t) →
    ¬ (p = .ignoreOnConflict ∧ ∃ x ∈ server.schemas s, server.OwnSchema s n x) →
      (∀ x, x ∈ server.schemas t ↔
        x = (server.home s n, n) ∨ (x ∈ server.schemas s ∧ ¬ server.OwnSchema s n x)) ∧
      ∀ r, r ∈ server.tables t ↔ r ∈ server.tables s ∧ ¬ server.OwnSchema s n (r.catalog, r.schema)
  create_listed : ∀ {s n e p w t}, server.exec s (.create n e p) w = (true, t) →
    ∃ x ∈ server.schemas s, server.OwnSchema s n x
  create_error : ∀ {s n e w t}, server.exec s (.create n e .errorOnConflict) w = (true, t) →
    ∀ r ∈ server.tables s, ¬ r.At (server.home s n) n e.key
  create_ignore : ∀ {s n e w t}, server.exec s (.create n e .ignoreOnConflict) w = (true, t) →
    (∃ r ∈ server.tables s, r.At (server.home s n) n e.key) → server.Same s t
  create_new : ∀ {s n e p w t}, (server.home s n, n) ∈ server.schemas s →
    server.exec s (.create n e p) w = (true, t) →
    ¬ (p = .ignoreOnConflict ∧ ∃ r ∈ server.tables s, r.At (server.home s n) n e.key) →
      (∀ x, x ∈ server.schemas t ↔ x ∈ server.schemas s) ∧
      ∀ r, r ∈ server.tables t ↔
        r = ⟨server.home s n, n, e⟩ ∨ (r ∈ server.tables s ∧ ¬ r.At (server.home s n) n e.key)
  drop : ∀ {s n type name ifExists w t}, server.exec s (.dropEntry n type name ifExists) w = (true, t) →
    (∀ x, x ∈ server.schemas t ↔ x ∈ server.schemas s) ∧
    ∀ r, r ∈ server.tables t ↔ r ∈ server.tables s ∧ ¬ r.At (server.holder s n (lower name)) n (lower name)

/-- No two listed schemas have the same name, and no two entries of schemas of one name. -/
structure NoClash (s : σ) : Prop where
  schemas : ((server.schemas s).map fun x => lower x.2).Nodup
  tables : ((server.tables s).map fun r => (r.schema, r.entry.key)).Nodup

end Server

/-! ## The copy -/

/-- What the copy needs to know to write the text of a view. -/
structure Attached where
  name : Bytes
  sqlIdentifier : Bytes → Bytes

/-- `SQLString`. -/
def sqlString (s : Bytes) : Bytes :=
  0x27 :: s.flatMap (fun b => if b = 0x27 then [b, b] else [b]) ++ [0x27]

/-- `CreateViewSQL`. -/
def Attached.createViewSql (a : Attached) (schemaName viewName : Bytes) : Bytes :=
  let remoteSql := lit "FROM " ++ a.sqlIdentifier schemaName ++ lit "." ++ a.sqlIdentifier viewName
  lit "FROM quack_query_by_name(" ++ sqlString a.name ++ lit ", " ++ sqlString remoteSql ++ lit ")"

/-- The entry in the copy for an entry of the server. -/
def Attached.cached (a : Attached) (schemaName : Bytes) (e : Entry) : Entry :=
  match e.type with
  | .tableEntry => e
  | .viewEntry => { e with definition := a.createViewSql schemaName e.name }

/-- `QuackCatalogSet::CreateEntry`. -/
def createEntry {α : Type} {key : α → Bytes} (set : KeyedMap key) (entry : α)
    (onConflict : OnCreateConflict) : KeyedMap key :=
  if onConflict = .replaceOnConflict then set.put entry
  else if (set.get (key entry)).isSome then set
  else set.put entry

/-- The statement that is sent: `CreateTable`, `CreateView` and `DropEntry` are methods of a schema in the
copy and put its name into it. -/
def sent (cache : Catalog) : Ddl → Option Ddl
  | .createSchema name onConflict => some (.createSchema name onConflict)
  | .create schema entry onConflict =>
      (cache.get (lower schema)).map fun s => .create s.name entry onConflict
  | .dropEntry schema type name ifExists =>
      (cache.get (lower schema)).map fun s => .dropEntry s.name type name ifExists

/-- What `CreateSchema`, `CreateTable`, `CreateView` and `DropEntry` do to the copy after that. -/
def Attached.apply (a : Attached) (cache : Catalog) : Ddl → Catalog
  | .createSchema name onConflict => createEntry cache ⟨name, ∅⟩ onConflict
  | .create schema entry onConflict =>
      match cache.get (lower schema) with
      | none => cache
      | some s => cache.put { s with tables := createEntry s.tables (a.cached s.name entry) onConflict }
  | .dropEntry schema _ name _ =>
      match cache.get (lower schema) with
      | none => cache
      | some s => cache.put { s with tables := s.tables.erase (lower name) }

/-- The constructor of `QuackTableSet`: a row goes to the schema of its name. -/
def Attached.tableSet (a : Attached) (schemaName : Bytes) (rows : List (Bytes × Entry)) : TableSet :=
  KeyedMap.ofList
    ((rows.filter fun row => row.1 = schemaName).map fun row => a.cached schemaName row.2)

/-- `QuackSchemaSet::Reload`, from the rows that were answered. -/
def Attached.reload (a : Attached) (schemas : List (Bytes × Bytes)) (tables : List (Bytes × Entry)) :
    Catalog :=
  KeyedMap.ofList (schemas.map fun row => ⟨row.2, a.tableSet row.2 tables⟩)

/-! ## The state machine -/

section Machine

variable {σ ω : Type}

structure State (σ : Type) where
  server : σ
  cache : Catalog := ∅

inductive Action (σ ω : Type) where
  /-- A method of the catalog whose statement is answered. -/
  | ddl (ddl : Ddl) (choice : ω)
  /-- The same when its context is gone: nothing is sent, silently. -/
  | ddlGone (ddl : Ddl)
  /-- All else that changes what the session is answered: what other sessions commit, BEGIN, COMMIT and
  ROLLBACK, statements sent by `quack_query`, those that come twice, and those whose answer is lost. -/
  | server (state : σ)
  /-- `LoadCatalog` and `Reload`. The answers have that many rows: `ExecuteCommandInternal` takes what came
  with the PREPARE and fetches nothing. A schema that throws ends the load too. -/
  | refresh (schemaRows tableRows : Nat)

variable (a : Attached) (server : Server σ ω)

/-- The two columns of a row that the load query asks for. -/
def Row.answer (r : Row) : Bytes × Entry := (r.schema, r.entry)

def step (s : State σ) : Action σ ω → Option (State σ)
  | .ddl ddl choice =>
      (sent s.cache ddl).map fun statement =>
        match server.exec s.server statement choice with
        | (true, t) => { server := t, cache := a.apply s.cache ddl }
        | (false, t) => { s with server := t }
  | .ddlGone ddl => (sent s.cache ddl).map fun _ => { s with cache := a.apply s.cache ddl }
  | .server state => some { s with server := state }
  | .refresh m n => some { s with
      cache := a.reload ((server.schemas s.server).take m)
        (((server.tables s.server).map Row.answer).take n) }

end Machine

/-! ## What is in a catalog -/

def HasSchema (c : Catalog) (name : Bytes) : Prop := ∃ s ∈ c.toList, s.name = name

def HasEntry (c : Catalog) (name : Bytes) (e : Entry) : Prop :=
  ∃ s ∈ c.toList, s.name = name ∧ e ∈ s.tables.toList

section Answers

variable {σ ω : Type} (a : Attached) (server : Server σ ω)

/-- The session is answered a schema of the name. -/
def Lists (s : σ) (name : Bytes) : Prop := ∃ c, (c, name) ∈ server.schemas s

/-- It is answered a row that becomes the entry. -/
def Shows (s : σ) (name : Bytes) (e : Entry) : Prop :=
  Lists server s name ∧ ∃ r ∈ server.tables s, r.schema = name ∧ e = a.cached name r.entry

/-- The copy has what the session is answered. -/
structure Coherent (s : State σ) : Prop where
  schemas : ∀ n, HasSchema s.cache n ↔ Lists server s.server n
  entries : ∀ n e, HasEntry s.cache n e ↔ Shows a server s.server n e

end Answers

/-! ## The copy and its schemas -/

section Copy

variable {a : Attached} {c : Catalog} {sc s' : Schema}

theorem mem_of_get {key : Bytes} (h : c.get key = some sc) : sc ∈ c.toList := (KeyedMap.get_eq_some.mp h).1

theorem hasEntry_self (hmem : sc ∈ c.toList) {e : Entry} : HasEntry c sc.name e ↔ e ∈ sc.tables.toList := by
  constructor
  · rintro ⟨x, hx, hname, he⟩
    obtain rfl := KeyedMap.eq_of_key hx hmem (congrArg lower hname)
    exact he
  · exact fun he => ⟨sc, hmem, rfl, he⟩

/-- A schema is put in place of the one of its name. -/
theorem hasSchema_put (hmem : sc ∈ c.toList) (hname : s'.name = sc.name) (n : Bytes) :
    HasSchema (c.put s') n ↔ HasSchema c n := by
  have hkey : s'.key = sc.key := congrArg lower hname
  simp only [HasSchema, KeyedMap.mem_put]
  constructor
  · rintro ⟨x, rfl | ⟨hx, -⟩, rfl⟩
    · exact ⟨sc, hmem, hname.symm⟩
    · exact ⟨x, hx, rfl⟩
  · rintro ⟨x, hx, rfl⟩
    by_cases hne : x.key = s'.key
    · obtain rfl := KeyedMap.eq_of_key hx hmem (hne.trans hkey)
      exact ⟨s', Or.inl rfl, hname⟩
    · exact ⟨x, Or.inr ⟨hx, hne⟩, rfl⟩

theorem hasEntry_put (hmem : sc ∈ c.toList) (hname : s'.name = sc.name) {n : Bytes} (hn : n ≠ sc.name)
    (e : Entry) : HasEntry (c.put s') n e ↔ HasEntry c n e := by
  have hkey : s'.key = sc.key := congrArg lower hname
  simp only [HasEntry, KeyedMap.mem_put]
  constructor
  · rintro ⟨x, rfl | ⟨hx, -⟩, rfl, he⟩
    · exact absurd hname hn
    · exact ⟨x, hx, rfl, he⟩
  · rintro ⟨x, hx, rfl, he⟩
    refine ⟨x, Or.inr ⟨hx, fun hne => hn ?_⟩, rfl, he⟩
    rw [KeyedMap.eq_of_key hx hmem (hne.trans hkey)]

/-- An empty schema is put in. -/
theorem hasSchema_put_empty (n m : Bytes) :
    HasSchema (c.put ⟨n, ∅⟩) m ↔ m = n ∨ (HasSchema c m ∧ lower m ≠ lower n) := by
  simp only [HasSchema, KeyedMap.mem_put]
  constructor
  · rintro ⟨x, rfl | ⟨hx, hne⟩, rfl⟩
    · exact Or.inl rfl
    · exact Or.inr ⟨⟨x, hx, rfl⟩, hne⟩
  · rintro (rfl | ⟨⟨x, hx, rfl⟩, hne⟩)
    · exact ⟨_, Or.inl rfl, rfl⟩
    · exact ⟨x, Or.inr ⟨hx, hne⟩, rfl⟩

theorem hasEntry_put_empty (n m : Bytes) (e : Entry) :
    HasEntry (c.put ⟨n, ∅⟩) m e ↔ HasEntry c m e ∧ lower m ≠ lower n := by
  simp only [HasEntry, KeyedMap.mem_put]
  constructor
  · rintro ⟨x, rfl | ⟨hx, hne⟩, rfl, he⟩
    · cases he
    · exact ⟨⟨x, hx, rfl, he⟩, hne⟩
  · rintro ⟨⟨x, hx, rfl, he⟩, hne⟩
    exact ⟨x, Or.inr ⟨hx, hne⟩, rfl, he⟩

theorem key_cached (a : Attached) (schemaName : Bytes) (e : Entry) :
    (a.cached schemaName e).key = e.key := by
  unfold Attached.cached
  split <;> rfl

section CreateEntry

variable {α : Type} {key : α → Bytes} {set : KeyedMap key} {entry : α} {p : OnCreateConflict}

theorem createEntry_kept (hp : p ≠ .replaceOnConflict) (h : ∃ x ∈ set.toList, key x = key entry) :
    createEntry set entry p = set := by
  rw [createEntry, if_neg hp, if_pos (KeyedMap.isSome_get.mpr h)]

theorem createEntry_put (h : p ≠ .replaceOnConflict → ∀ x ∈ set.toList, key x ≠ key entry) :
    createEntry set entry p = set.put entry := by
  rw [createEntry]
  split
  · rfl
  · rename_i hp
    rw [if_neg]
    rintro hsome
    obtain ⟨x, hx, hkey⟩ := KeyedMap.isSome_get.mp hsome
    exact h hp x hx hkey

end CreateEntry

end Copy

section Coherence

variable {σ ω : Type} {a : Attached} {server : Server σ ω} {s : State σ}

/-- Answers with the same rows are as good. -/
theorem lists_of_same {u t : σ} (h : server.Same u t) (n : Bytes) : Lists server t n ↔ Lists server u n :=
  exists_congr fun c => h.1 (c, n)

theorem shows_of_same {u t : σ} (h : server.Same u t) (n : Bytes) (e : Entry) :
    Shows a server t n e ↔ Shows a server u n e :=
  and_congr (lists_of_same h n) (exists_congr fun r => and_congr_left fun _ => h.2 r)

theorem Coherent.same (h : Coherent a server s) {t : σ} (hsame : server.Same s.server t) :
    Coherent a server { s with server := t } :=
  ⟨fun n => (h.schemas n).trans (lists_of_same hsame n).symm,
    fun n e => (h.entries n e).trans (shows_of_same hsame n e).symm⟩

/-- A schema of the copy has the entries that are answered for its name. -/
theorem Coherent.mem_tables (h : Coherent a server s) {sc : Schema} (hmem : sc ∈ s.cache.toList)
    {e : Entry} :
    e ∈ sc.tables.toList ↔
      ∃ r ∈ server.tables s.server, r.schema = sc.name ∧ e = a.cached sc.name r.entry := by
  rw [← hasEntry_self hmem, h.entries]
  exact and_iff_right ((h.schemas _).mp ⟨sc, hmem, rfl⟩)

/-- Of a statement about one schema only this one has to be looked at. -/
theorem coherent_put (h : Coherent a server s) {sc : Schema} (hmem : sc ∈ s.cache.toList) {s' : Schema}
    (hname : s'.name = sc.name) {t : σ}
    (hschemas : ∀ x, x ∈ server.schemas t ↔ x ∈ server.schemas s.server)
    (hothers : ∀ r : Row, r.schema ≠ sc.name → (r ∈ server.tables t ↔ r ∈ server.tables s.server)) :
    Coherent a server { server := t, cache := s.cache.put s' } ↔
      ∀ e, e ∈ s'.tables.toList ↔
        ∃ r ∈ server.tables t, r.schema = sc.name ∧ e = a.cached sc.name r.entry := by
  have hlists : ∀ n, Lists server t n ↔ Lists server s.server n :=
    fun n => exists_congr fun c => hschemas (c, n)
  have hput : ∀ e, HasEntry (s.cache.put s') sc.name e ↔ e ∈ s'.tables.toList := by
    intro e
    rw [← hname]
    exact hasEntry_self (KeyedMap.mem_put.mpr (Or.inl rfl))
  have hlisted : Lists server t sc.name := (hlists _).mpr ((h.schemas _).mp ⟨sc, hmem, rfl⟩)
  constructor
  · intro ht e
    rw [← hput, ht.entries]
    exact and_iff_right hlisted
  · intro hentries
    refine ⟨fun n => ?_, fun n e => ?_⟩
    · exact (hasSchema_put hmem hname n).trans ((h.schemas n).trans (hlists n).symm)
    · by_cases hn : n = sc.name
      · subst hn
        exact (hput e).trans ((hentries e).trans (and_iff_right hlisted).symm)
      · rw [hasEntry_put hmem hname hn, h.entries]
        refine and_congr (hlists n).symm (exists_congr fun r => ?_)
        constructor
        · rintro ⟨hr, rfl, he⟩
          exact ⟨(hothers r hn).mpr hr, rfl, he⟩
        · rintro ⟨hr, rfl, he⟩
          exact ⟨(hothers r hn).mp hr, rfl, he⟩

end Coherence

/-! ## One statement -/

section Statements

variable {σ ω : Type} {a : Attached} {server : Server σ ω} {s : State σ} {t : σ}

/-- No entry of another catalog stands under the names. -/
def Alone (server : Server σ ω) (s : σ) : Ddl → Prop
  | .createSchema n p => (p = .ignoreOnConflict ∧ ∃ x ∈ server.schemas s, server.OwnSchema s n x) ∨
      ∀ r ∈ server.tables s, r.schema = n → r.catalog = server.home s n
  | .create _ _ _ => True
  | .dropEntry n _ name _ =>
      ∀ r ∈ server.tables s, r.schema = n → r.entry.key = lower name →
        r.catalog = server.holder s n (lower name)

theorem alone_of_sent {cache : Catalog} {n : Bytes} {e : Entry} {p : OnCreateConflict} {statement : Ddl}
    (h : sent cache (.create n e p) = some statement) : Alone server t statement := by
  obtain ⟨sc, -, rfl⟩ := Option.map_eq_some_iff.mp h
  exact trivial

theorem eq_of_names {l : List Row} (h : (l.map fun r => (r.schema, r.entry.key)).Nodup) {r r' : Row}
    (hr : r ∈ l) (hr' : r' ∈ l) (hschema : r.schema = r'.schema) (hkey : r.entry.key = r'.entry.key) :
    r = r' :=
  List.inj_on_of_nodup_map h hr hr' (Prod.ext hschema hkey)

section NewSchema

variable {u : σ} {n : Bytes} (hschemas : ∀ x, x ∈ server.schemas t ↔
  x = (server.home u n, n) ∨ (x ∈ server.schemas u ∧ ¬ server.OwnSchema u n x)) (ht : server.NoClash t)
include hschemas ht

/-- A schema of another catalog would clash with the new one. -/
theorem ownSchema_of_lower {x : Bytes × Bytes} (hx : x ∈ server.schemas u) (hname : lower x.2 = lower n) :
    server.OwnSchema u n x := by
  by_contra hnot
  have hnew := List.inj_on_of_nodup_map ht.schemas ((hschemas x).mpr (Or.inr ⟨hx, hnot⟩))
    ((hschemas _).mpr (Or.inl rfl)) hname
  exact hnot ⟨by rw [hnew], hname⟩

theorem lists_new (m : Bytes) : Lists server t m ↔ m = n ∨ (Lists server u m ∧ lower m ≠ lower n) := by
  constructor
  · rintro ⟨c, hx⟩
    rcases (hschemas _).mp hx with heq | ⟨hx', hnot⟩
    · exact Or.inl (Prod.mk.inj heq).2
    · exact Or.inr ⟨⟨c, hx'⟩, fun hname => hnot (ownSchema_of_lower hschemas ht hx' hname)⟩
  · rintro (rfl | ⟨⟨c, hx⟩, hname⟩)
    · exact ⟨_, (hschemas _).mpr (Or.inl rfl)⟩
    · exact ⟨c, (hschemas _).mpr (Or.inr ⟨hx, fun hown => hname hown.2⟩)⟩

/-- For the other names nothing has changed. -/
theorem shows_new (htables : ∀ r, r ∈ server.tables t ↔
      r ∈ server.tables u ∧ ¬ server.OwnSchema u n (r.catalog, r.schema))
    {m : Bytes} (hm : m ≠ n) (e : Entry) :
    Shows a server t m e ↔ Shows a server u m e ∧ lower m ≠ lower n := by
  rw [Shows, Shows, lists_new hschemas ht, or_iff_right hm]
  constructor
  · rintro ⟨⟨hlist, hname⟩, r, hr, hschema, he⟩
    exact ⟨⟨hlist, r, ((htables r).mp hr).1, hschema, he⟩, hname⟩
  · rintro ⟨⟨hlist, r, hr, hschema, he⟩, hname⟩
    refine ⟨⟨hlist, hname⟩, r, (htables r).mpr ⟨hr, fun hown => hname ?_⟩, hschema, he⟩
    rw [← hschema]
    exact hown.2

end NewSchema

variable (hlaw : server.Lawful) (h : Coherent a server s)
include hlaw h

/-- CREATE TABLE and CREATE VIEW: the copy's conflict policy does what the server has done. -/
theorem coherent_create (hs : server.NoClash s.server) (ht : server.NoClash t) {sc : Schema}
    (hmem : sc ∈ s.cache.toList) {e : Entry} {p : OnCreateConflict} {w : ω}
    (hexec : server.exec s.server (.create sc.name e p) w = (true, t)) :
    Coherent a server
      { server := t
        cache := s.cache.put { sc with tables := createEntry sc.tables (a.cached sc.name e) p } } := by
  obtain ⟨c, hlisted⟩ := (h.schemas _).mp ⟨sc, hmem, rfl⟩
  have hname : ∀ tables, ({ sc with tables } : Schema).name = sc.name := fun _ => rfl
  by_cases hkeep : p = .ignoreOnConflict ∧
      ∃ r ∈ server.tables s.server, r.At (server.home s.server sc.name) sc.name e.key
  · -- what is there stays, in the copy too
    obtain ⟨rfl, r, hr, hown⟩ := hkeep
    have hsame := hlaw.create_ignore hexec ⟨r, hr, hown⟩
    have hkept : createEntry sc.tables (a.cached sc.name e) .ignoreOnConflict = sc.tables := by
      refine createEntry_kept (by decide) ⟨a.cached sc.name r.entry, ?_, ?_⟩
      · exact (h.mem_tables hmem).mpr ⟨r, hr, hown.2.1, rfl⟩
      · rw [key_cached, key_cached, hown.2.2]
    rw [hkept]
    refine (coherent_put h hmem (hname _) hsame.1 fun r _ => hsame.2 r).mpr fun e' => ?_
    rw [h.mem_tables hmem]
    exact exists_congr fun r => and_congr_left fun _ => (hsame.2 r).symm
  · have hhome : (server.home s.server sc.name, sc.name) ∈ server.schemas s.server := by
      obtain ⟨x, hx, hown⟩ := hlaw.create_listed hexec
      obtain rfl := List.inj_on_of_nodup_map hs.schemas hx hlisted hown.2
      rwa [← hown.1]
    obtain ⟨hschemas, htables⟩ := hlaw.create_new hhome hexec hkeep
    -- an entry of another catalog would clash with the new one
    have hown : ∀ r ∈ server.tables s.server, r.schema = sc.name → r.entry.key = e.key →
        r.At (server.home s.server sc.name) sc.name e.key := by
      intro r hr hschema hkey
      by_contra hnot
      have hnew := eq_of_names ht.tables ((htables r).mpr (Or.inr ⟨hr, hnot⟩)) ((htables _).mpr (Or.inl rfl))
        hschema hkey
      exact hnot ⟨by rw [hnew], hschema, hkey⟩
    have hput : createEntry sc.tables (a.cached sc.name e) p = sc.tables.put (a.cached sc.name e) := by
      refine createEntry_put fun hp x hx hkey => ?_
      obtain ⟨r, hr, hschema, rfl⟩ := (h.mem_tables hmem).mp hx
      rw [key_cached, key_cached] at hkey
      have hr' := hown r hr hschema hkey
      cases p with
      | errorOnConflict => exact hlaw.create_error hexec r hr hr'
      | ignoreOnConflict => exact hkeep ⟨rfl, r, hr, hr'⟩
      | replaceOnConflict => exact hp rfl
    rw [hput]
    refine (coherent_put h hmem (hname _) hschemas fun r hne => ?_).mpr fun e' => ?_
    · rw [htables]
      constructor
      · rintro (rfl | ⟨hr, -⟩)
        · exact absurd rfl hne
        · exact hr
      · exact fun hr => Or.inr ⟨hr, fun hown => hne hown.2.1⟩
    · rw [KeyedMap.mem_put, h.mem_tables hmem, key_cached]
      constructor
      · rintro (rfl | ⟨⟨r, hr, hschema, rfl⟩, hkey⟩)
        · exact ⟨_, (htables _).mpr (Or.inl rfl), rfl, rfl⟩
        · rw [key_cached] at hkey
          exact ⟨r, (htables r).mpr (Or.inr ⟨hr, fun hr' => hkey hr'.2.2⟩), hschema, rfl⟩
      · rintro ⟨r, hr, hschema, rfl⟩
        rcases (htables r).mp hr with rfl | ⟨hr, hnot⟩
        · exact Or.inl rfl
        · refine Or.inr ⟨⟨r, hr, hschema, rfl⟩, fun hkey => hnot ?_⟩
          rw [key_cached] at hkey
          exact hown r hr hschema hkey

/-- DROP: the copy loses what stands under the name, whoever's it is. -/
theorem coherent_drop {sc : Schema} (hmem : sc ∈ s.cache.toList) {type : CatalogType} {name : Bytes}
    {ifExists : Bool} {w : ω}
    (hexec : server.exec s.server (.dropEntry sc.name type name ifExists) w = (true, t)) :
    Coherent a server
        { server := t
          cache := s.cache.put { sc with tables := sc.tables.erase (lower name) } } ↔
      Alone server s.server (.dropEntry sc.name type name ifExists) := by
  obtain ⟨hschemas, htables⟩ := hlaw.drop hexec
  have hname : ({ sc with tables := sc.tables.erase (lower name) } : Schema).name = sc.name := rfl
  refine (coherent_put h hmem hname hschemas fun r hne => ?_).trans ?_
  · rw [htables]
    exact and_iff_left fun hown => hne hown.2.1
  · simp only [KeyedMap.mem_erase, h.mem_tables hmem]
    constructor
    · intro hiff r hr hschema hkey
      by_contra hcatalog
      have hshown : r ∈ server.tables t := (htables r).mpr ⟨hr, fun hown => hcatalog hown.1⟩
      exact ((hiff (a.cached sc.name r.entry)).mpr ⟨r, hshown, hschema, rfl⟩).2 (by rw [key_cached, hkey])
    · intro halone e
      constructor
      · rintro ⟨⟨r, hr, hschema, rfl⟩, hkey⟩
        rw [key_cached] at hkey
        exact ⟨r, (htables r).mpr ⟨hr, fun hown => hkey hown.2.2⟩, hschema, rfl⟩
      · rintro ⟨r, hr, hschema, rfl⟩
        obtain ⟨hr, hnot⟩ := (htables r).mp hr
        refine ⟨⟨r, hr, hschema, rfl⟩, fun hkey => hnot ?_⟩
        rw [key_cached] at hkey
        exact ⟨halone r hr hschema hkey, hschema, hkey⟩

/-- CREATE SCHEMA: the new schema is empty in the copy, and on the server unless another catalog has entries
of a schema of its name. -/
theorem coherent_createSchema (ht : server.NoClash t) {n : Bytes} {p : OnCreateConflict} {w : ω}
    (hexec : server.exec s.server (.createSchema n p) w = (true, t)) :
    Coherent a server { server := t, cache := createEntry s.cache ⟨n, ∅⟩ p } ↔
      Alone server s.server (.createSchema n p) := by
  by_cases hkeep : p = .ignoreOnConflict ∧ ∃ x ∈ server.schemas s.server, server.OwnSchema s.server n x
  · refine iff_of_true ?_ (Or.inl hkeep)
    obtain ⟨rfl, ⟨c, m⟩, hx, hown⟩ := hkeep
    obtain ⟨sc, hmem, rfl⟩ := (h.schemas m).mpr ⟨c, hx⟩
    have hkey : sc.key = Schema.key ⟨n, ∅⟩ := hown.2
    rw [createEntry_kept (by decide) ⟨sc, hmem, hkey⟩]
    exact h.same (hlaw.createSchema_ignore hexec ⟨_, hx, hown⟩)
  · obtain ⟨hschemas, htables⟩ := hlaw.createSchema_new hexec hkeep
    have hput : createEntry s.cache (⟨n, ∅⟩ : Schema) p = s.cache.put ⟨n, ∅⟩ := by
      refine createEntry_put fun hp sc hmem hkey => ?_
      obtain ⟨c, hx⟩ := (h.schemas _).mp ⟨sc, hmem, rfl⟩
      have hx' := ownSchema_of_lower hschemas ht hx hkey
      cases p with
      | errorOnConflict => exact hlaw.createSchema_error hexec _ hx hx'
      | ignoreOnConflict => exact hkeep ⟨rfl, _, hx, hx'⟩
      | replaceOnConflict => exact hp rfl
    have hlists := lists_new hschemas ht
    rw [hput]
    constructor
    · intro hcoherent
      refine Or.inr fun r hr hschema => ?_
      by_contra hcatalog
      have hr' : r ∈ server.tables t := (htables r).mpr ⟨hr, fun hown => hcatalog hown.1⟩
      have hshown : Shows a server t n (a.cached n r.entry) :=
        ⟨(hlists n).mpr (Or.inl rfl), r, hr', hschema, rfl⟩
      exact ((hasEntry_put_empty n n _).mp ((hcoherent.entries n _).mpr hshown)).2 rfl
    · intro halone
      have hnone := halone.resolve_left hkeep
      refine ⟨fun m => ?_, fun m e => ?_⟩
      · exact (hasSchema_put_empty n m).trans
          ((or_congr_right (and_congr_left fun _ => h.schemas m)).trans (hlists m).symm)
      · by_cases hm : m = n
        · subst hm
          refine iff_of_false (fun he => ((hasEntry_put_empty _ _ e).mp he).2 rfl) ?_
          rintro ⟨-, r, hr, hschema, -⟩
          obtain ⟨hr, hnot⟩ := (htables r).mp hr
          exact hnot ⟨hnone r hr hschema, congrArg lower hschema⟩
        · exact (hasEntry_put_empty n m e).trans
            ((and_congr_left fun _ => h.entries m e).trans (shows_new hschemas ht htables hm e).symm)

end Statements

/-! ## Loading -/

section Loading

variable {σ ω : Type} {a : Attached} {server : Server σ ω} {s : σ}

theorem mem_tableSet {rows : List (Bytes × Entry)} (hrows : (rows.map fun row => (row.1, row.2.key)).Nodup)
    {n : Bytes} {e : Entry} :
    e ∈ (a.tableSet n rows).toList ↔ ∃ row ∈ rows, row.1 = n ∧ e = a.cached n row.2 := by
  have hnodup : (((rows.filter fun row => row.1 = n).map fun row => a.cached n row.2).map
      Entry.key).Nodup := by
    rw [List.map_map, List.Nodup, List.pairwise_map]
    refine ((List.pairwise_map.mp hrows).filter _).imp_of_mem fun hrow hrow' hne heq => hne ?_
    have hname := of_decide_eq_true (List.mem_filter.mp hrow).2
    have hname' := of_decide_eq_true (List.mem_filter.mp hrow').2
    rw [Function.comp_apply, Function.comp_apply, key_cached, key_cached] at heq
    rw [hname, hname', heq]
  rw [Attached.tableSet, KeyedMap.mem_ofList hnodup, List.mem_map]
  constructor
  · rintro ⟨row, hrow, rfl⟩
    obtain ⟨hmem, hname⟩ := List.mem_filter.mp hrow
    exact ⟨row, hmem, of_decide_eq_true hname, rfl⟩
  · rintro ⟨row, hrow, hname, rfl⟩
    exact ⟨row, List.mem_filter.mpr ⟨hrow, decide_eq_true hname⟩, rfl⟩

section Rows

variable {xs : List (Bytes × Bytes)} {rows : List (Bytes × Entry)} (hxs : (xs.map fun x => lower x.2).Nodup)
include hxs

theorem mem_reload {sc : Schema} :
    sc ∈ (a.reload xs rows).toList ↔ ∃ x ∈ xs, sc = ⟨x.2, a.tableSet x.2 rows⟩ := by
  have hnodup : ((xs.map fun x => (⟨x.2, a.tableSet x.2 rows⟩ : Schema)).map Schema.key).Nodup := by
    rw [List.map_map]
    exact hxs
  rw [Attached.reload, KeyedMap.mem_ofList hnodup, List.mem_map]
  exact exists_congr fun x => and_congr_right fun _ => eq_comm

theorem hasSchema_reload {n : Bytes} : HasSchema (a.reload xs rows) n ↔ ∃ c, (c, n) ∈ xs := by
  simp only [HasSchema, mem_reload hxs]
  constructor
  · rintro ⟨-, ⟨x, hx, rfl⟩, rfl⟩
    exact ⟨x.1, hx⟩
  · rintro ⟨c, hx⟩
    exact ⟨_, ⟨_, hx, rfl⟩, rfl⟩

theorem hasEntry_reload (hrows : (rows.map fun row => (row.1, row.2.key)).Nodup) {n : Bytes} {e : Entry} :
    HasEntry (a.reload xs rows) n e ↔
      (∃ c, (c, n) ∈ xs) ∧ ∃ row ∈ rows, row.1 = n ∧ e = a.cached n row.2 := by
  simp only [HasEntry, mem_reload hxs]
  constructor
  · rintro ⟨-, ⟨x, hx, rfl⟩, rfl, he⟩
    exact ⟨⟨x.1, hx⟩, (mem_tableSet hrows).mp he⟩
  · rintro ⟨⟨c, hx⟩, he⟩
    exact ⟨_, ⟨_, hx, rfl⟩, rfl, (mem_tableSet hrows).mpr he⟩

end Rows

/-- All listed schemas were answered, and all rows that have one. -/
def Complete (server : Server σ ω) (s : σ) (m n : Nat) : Prop :=
  (server.schemas s).length ≤ m ∧ ∀ r ∈ (server.tables s).drop n, ¬ Lists server s r.schema

/-- **A load is right exactly if it was complete.** -/
theorem coherent_reload_iff (hs : server.NoClash s) {m n : Nat} :
    Coherent a server
      { server := s
        cache := a.reload ((server.schemas s).take m) (((server.tables s).map Row.answer).take n) } ↔
      Complete server s m n := by
  have hxs : (((server.schemas s).take m).map fun x => lower x.2).Nodup := by
    rw [List.map_take]
    exact (List.take_sublist m _).nodup hs.schemas
  have hrows : ((((server.tables s).map Row.answer).take n).map fun row => (row.1, row.2.key)).Nodup := by
    rw [List.map_take, List.map_map]
    exact (List.take_sublist n _).nodup hs.tables
  have htaken : ∀ {name e}, (∃ row ∈ ((server.tables s).map Row.answer).take n, row.1 = name ∧
      e = a.cached name row.2) ↔
        ∃ r ∈ (server.tables s).take n, r.schema = name ∧ e = a.cached name r.entry := by
    intro name e
    rw [← List.map_take]
    simp only [List.mem_map, exists_exists_and_eq_and, Row.answer]
  constructor
  · intro h
    have hschema : ∀ x ∈ server.schemas s, x ∈ (server.schemas s).take m := by
      intro x hx
      obtain ⟨c, hx'⟩ := (hasSchema_reload hxs).mp ((h.schemas x.2).mpr ⟨x.1, hx⟩)
      have hsame := List.inj_on_of_nodup_map hs.schemas (List.mem_of_mem_take hx') hx rfl
      rwa [← hsame]
    refine ⟨?_, fun r hr hlisted => ?_⟩
    · have hnodup := hs.schemas.of_map
      exact (List.subperm_of_subset hnodup hschema).length_le.trans (List.length_take_le m _)
    · have hr' := List.mem_of_mem_drop hr
      obtain ⟨-, hentry⟩ :=
        (hasEntry_reload hxs hrows).mp ((h.entries r.schema _).mpr ⟨hlisted, r, hr', rfl, rfl⟩)
      obtain ⟨r₀, hr₀, hname, hcached⟩ := htaken.mp hentry
      -- the entry has come with another row, which would have its names
      have hkey := congrArg Entry.key hcached
      rw [key_cached, key_cached] at hkey
      have hsame := eq_of_names hs.tables (List.mem_of_mem_take hr₀) hr' hname hkey.symm
      exact List.disjoint_take_drop hs.tables.of_map le_rfl (hsame ▸ hr₀) hr
  · rintro ⟨hm, hn⟩
    rw [List.take_of_length_le hm] at hxs ⊢
    refine ⟨fun name => hasSchema_reload hxs, fun name e => ?_⟩
    refine (hasEntry_reload hxs hrows).trans (and_congr_right fun hlisted => htaken.trans ?_)
    constructor
    · rintro ⟨r, hr, hname, he⟩
      exact ⟨r, List.mem_of_mem_take hr, hname, he⟩
    · rintro ⟨r, hr, rfl, he⟩
      rw [← List.take_append_drop n (server.tables s), List.mem_append] at hr
      exact ⟨r, hr.resolve_right fun hdrop => hn r hdrop hlisted, rfl, he⟩

end Loading

/-! ## Runs -/

section Runs

variable {σ ω : Type} (a : Attached) (server : Server σ ω)

/-- What the copy can follow: it hears of its own statements only, and only when they are carried out. -/
def Faithful (s : State σ) : Action σ ω → Prop
  | .ddl ddl w => ∀ statement t, sent s.cache ddl = some statement →
      server.exec s.server statement w = (true, t) → Alone server s.server statement
  | .ddlGone ddl => (∀ n, HasSchema (a.apply s.cache ddl) n ↔ HasSchema s.cache n) ∧
      ∀ n e, HasEntry (a.apply s.cache ddl) n e ↔ HasEntry s.cache n e
  | .server t => (∀ n, Lists server t n ↔ Lists server s.server n) ∧
      ∀ n e, Shows a server t n e ↔ Shows a server s.server n e
  | .refresh m n => Complete server s.server m n

variable {a server} {s t : State σ}

theorem coherent_ddl (hlaw : server.Lawful) (h : Coherent a server s) {ddl statement : Ddl} {w : ω} {u : σ}
    (hs : server.NoClash s.server) (hu : server.NoClash u) (hsent : sent s.cache ddl = some statement)
    (hexec : server.exec s.server statement w = (true, u)) :
    Coherent a server { server := u, cache := a.apply s.cache ddl } ↔ Alone server s.server statement := by
  cases ddl with
  | createSchema n p =>
      cases hsent
      exact coherent_createSchema hlaw h hu hexec
  | create schema e p =>
      obtain ⟨sc, hget, rfl⟩ := Option.map_eq_some_iff.mp hsent
      simp only [Attached.apply, hget]
      exact iff_of_true (coherent_create hlaw h hs hu (mem_of_get hget) hexec) trivial
  | dropEntry schema type name ifExists =>
      obtain ⟨sc, hget, rfl⟩ := Option.map_eq_some_iff.mp hsent
      simp only [Attached.apply, hget]
      exact coherent_drop hlaw h (mem_of_get hget) hexec

theorem coherent_step (hlaw : server.Lawful) {act : Action σ ω} (hs : server.NoClash s.server)
    (ht : server.NoClash t.server) (h : Coherent a server s) (hstep : step a server s act = some t) :
    Coherent a server t ↔ Faithful a server s act := by
  cases act with
  | ddl ddl w =>
      obtain ⟨statement, hsent, rfl⟩ := Option.map_eq_some_iff.mp hstep
      have hfaithful : Faithful a server s (.ddl ddl w) ↔ ∀ t, server.exec s.server statement w = (true, t) →
          Alone server s.server statement := by
        refine ⟨fun hf t => hf statement t hsent, fun hf other t hother => ?_⟩
        obtain rfl := Option.some.inj (hsent.symm.trans hother)
        exact hf t
      rw [hfaithful]
      rcases hexec : server.exec s.server statement w with ⟨_ | _, u⟩
      · refine iff_of_true (h.same (hlaw.refused hexec)) fun t ht => ?_
        cases ht
      · simp only [hexec] at ht
        refine (coherent_ddl hlaw h hs ht hsent hexec).trans ⟨fun halone t ht => halone, fun hf => hf u rfl⟩
  | ddlGone ddl =>
      obtain ⟨statement, hsent, rfl⟩ := Option.map_eq_some_iff.mp hstep
      constructor
      · intro hcoherent
        exact ⟨fun n => (hcoherent.schemas n).trans (h.schemas n).symm,
          fun n e => (hcoherent.entries n e).trans (h.entries n e).symm⟩
      · rintro ⟨hschemas, hentries⟩
        exact ⟨fun n => (hschemas n).trans (h.schemas n), fun n e => (hentries n e).trans (h.entries n e)⟩
  | server u =>
      cases hstep
      constructor
      · intro hcoherent
        exact ⟨fun n => (hcoherent.schemas n).symm.trans (h.schemas n),
          fun n e => (hcoherent.entries n e).symm.trans (h.entries n e)⟩
      · rintro ⟨hlists, hshows⟩
        exact ⟨fun n => (h.schemas n).trans (hlists n).symm,
          fun n e => (h.entries n e).trans (hshows n e).symm⟩
  | refresh m n =>
      cases hstep
      exact coherent_reload_iff hs

/-- **When the copy is right.** From a complete load on, whatever was there before, and as long as no names
clash: the copy has, in every state, exactly what the session is answered if and only if no statement whose
context was gone would have changed it, nothing else changed the answers, every later load was complete, and
no schema was made and no entry dropped under names of another catalog's entries. The statements themselves,
with any conflict policy and any answer, never part the two. -/
theorem coherent_iff_faithful (hlaw : server.Lawful) {u : State σ} {m n : Nat}
    (hrefresh : step a server s (.refresh m n) = some u) (hcomplete : Complete server s.server m n)
    {as : List (Action σ ω)} (hclash : Always (step a server) (fun s => server.NoClash s.server) u as)
    (hrun : run (step a server) u as = some t) :
    Always (step a server) (Coherent a server) u as ↔ Meets (step a server) (Faithful a server) u as := by
  refine always_iff_meets_of_always (I := fun s => server.NoClash s.server)
    (fun s act t hs ht h hstep => coherent_step hlaw hs ht h hstep) hclash ?_ hrun
  cases hrefresh
  exact (coherent_reload_iff hclash.head).mpr hcomplete

end Runs

/-! ## A server -/

/-- A statement on the entries of the schema `main`; `none` when it fails. A plain CREATE meets nothing of the
name, and a thing is replaced by one of its type. -/
def inMain (entries : List Entry) : Ddl → Option (List Entry)
  | .createSchema _ _ => none
  | .create n e p =>
      if n = lit "main" ∧ (p = .errorOnConflict → ∀ old ∈ entries, old.key ≠ e.key) ∧
          (p = .replaceOnConflict → ∀ old ∈ entries, old.key = e.key → old.type = e.type) then
        some (if p = .ignoreOnConflict ∧ ∃ old ∈ entries, old.key = e.key then entries
          else e :: entries.filter fun old => old.key ≠ e.key)
      else none
  | .dropEntry n type name ifExists =>
      if n = lit "main" ∧ ((∃ old ∈ entries, old.key = lower name ∧ old.type = type) ∨
          (ifExists = true ∧ ∀ old ∈ entries, old.key ≠ lower name)) then
        some (entries.filter fun old => old.key ≠ lower name)
      else none

/-- The entries of `main` in the catalog `memory`, with a view of the system catalog beside them. -/
def oneSchema : Server (List Entry) Unit where
  schemas _ := [(lit "memory", lit "main")]
  tables entries := ⟨lit "system", lit "main", ⟨.viewEntry, lit "duckdb_views", lit "SELECT 1"⟩⟩ ::
    entries.map fun e => ⟨lit "memory", lit "main", e⟩
  home _ _ := lit "memory"
  holder _ _ _ := lit "memory"
  exec entries ddl _ :=
    match inMain entries ddl with
    | some after => (true, after)
    | none => (false, entries)

section OneSchema

variable {entries after : List Entry} {d : Ddl} {w : Unit}

theorem exec_oneSchema (h : oneSchema.exec entries d w = (true, after)) : inMain entries d = some after := by
  simp only [oneSchema] at h
  split at h <;> cases h
  assumption

theorem mem_oneSchema {r : Row} : r ∈ oneSchema.tables entries ↔
    r = ⟨lit "system", lit "main", ⟨.viewEntry, lit "duckdb_views", lit "SELECT 1"⟩⟩ ∨
      ∃ e ∈ entries, r = ⟨lit "memory", lit "main", e⟩ := by
  simp only [oneSchema, List.mem_cons, List.mem_map, eq_comm]

theorem at_oneSchema {key : Bytes} {r : Row} (hr : r ∈ oneSchema.tables entries) :
    r.At (lit "memory") (lit "main") key ↔ r.catalog = lit "memory" ∧ r.entry.key = key := by
  have hschema : r.schema = lit "main" := by
    rcases mem_oneSchema.mp hr with rfl | ⟨e, -, rfl⟩ <;> rfl
  exact and_congr_right fun _ => and_iff_right hschema

/-- The rows of what is left when the entries of a name are taken away. -/
theorem mem_filter_oneSchema {key : Bytes} {r : Row} :
    r ∈ oneSchema.tables (entries.filter fun old => old.key ≠ key) ↔
      r ∈ oneSchema.tables entries ∧ ¬ r.At (lit "memory") (lit "main") key := by
  have hsystem : lit "system" ≠ lit "memory" := by decide
  constructor
  · intro hr
    rcases mem_oneSchema.mp hr with rfl | ⟨e, he, rfl⟩
    · have hmem : _ ∈ oneSchema.tables entries := mem_oneSchema.mpr (Or.inl rfl)
      exact ⟨hmem, fun hown => hsystem ((at_oneSchema hmem).mp hown).1⟩
    · obtain ⟨he, hkey⟩ := List.mem_filter.mp he
      have hmem : _ ∈ oneSchema.tables entries := mem_oneSchema.mpr (Or.inr ⟨e, he, rfl⟩)
      exact ⟨hmem, fun hown => of_decide_eq_true hkey ((at_oneSchema hmem).mp hown).2⟩
  · rintro ⟨hr, hown⟩
    rw [at_oneSchema hr] at hown
    rcases mem_oneSchema.mp hr with rfl | ⟨e, he, rfl⟩
    · exact mem_oneSchema.mpr (Or.inl rfl)
    · have hkey : e.key ≠ key := fun hkey => hown ⟨rfl, hkey⟩
      exact mem_oneSchema.mpr (Or.inr ⟨e, List.mem_filter.mpr ⟨he, decide_eq_true hkey⟩, rfl⟩)

end OneSchema

theorem lawful_oneSchema : oneSchema.Lawful where
  refused h := by
    simp only [oneSchema] at h
    split at h <;> cases h
    exact ⟨fun _ => Iff.rfl, fun _ => Iff.rfl⟩
  createSchema_error h := by cases exec_oneSchema h
  createSchema_ignore h := by cases exec_oneSchema h
  createSchema_new h := by cases exec_oneSchema h
  create_listed h := by
    obtain ⟨⟨rfl, -⟩, -⟩ := Option.ite_none_right_eq_some.mp (exec_oneSchema h)
    exact ⟨_, List.mem_singleton.mpr rfl, rfl, rfl⟩
  create_error h r hr hown := by
    obtain ⟨⟨rfl, hnew, -⟩, -⟩ := Option.ite_none_right_eq_some.mp (exec_oneSchema h)
    obtain ⟨hcatalog, hkey⟩ := (at_oneSchema hr).mp hown
    rcases mem_oneSchema.mp hr with rfl | ⟨old, hold, rfl⟩
    · exact absurd hcatalog (by decide)
    · exact hnew rfl old hold hkey
  create_ignore h hown := by
    obtain ⟨⟨rfl, -⟩, hafter⟩ := Option.ite_none_right_eq_some.mp (exec_oneSchema h)
    obtain ⟨r, hr, hown⟩ := hown
    obtain ⟨hcatalog, hkey⟩ := (at_oneSchema hr).mp hown
    rcases mem_oneSchema.mp hr with rfl | ⟨old, hold, rfl⟩
    · exact absurd hcatalog (by decide)
    · rw [if_pos ⟨rfl, old, hold, hkey⟩] at hafter
      cases hafter
      exact ⟨fun _ => Iff.rfl, fun _ => Iff.rfl⟩
  create_new hlisted h hkeep := by
    obtain ⟨⟨rfl, -⟩, hafter⟩ := Option.ite_none_right_eq_some.mp (exec_oneSchema h)
    refine ⟨fun _ => Iff.rfl, fun r => ?_⟩
    rw [if_neg, Option.some.injEq] at hafter
    · rw [← hafter]
      refine Iff.trans ?_ (or_congr_right mem_filter_oneSchema)
      rw [mem_oneSchema, mem_oneSchema, List.exists_mem_cons_iff]
      exact or_left_comm
    · rintro ⟨hp, old, hold, hkey⟩
      have hr := mem_oneSchema.mpr (Or.inr ⟨old, hold, rfl⟩)
      exact hkeep ⟨hp, _, hr, (at_oneSchema hr).mpr ⟨rfl, hkey⟩⟩
  drop h := by
    obtain ⟨⟨rfl, -⟩, hafter⟩ := Option.ite_none_right_eq_some.mp (exec_oneSchema h)
    cases hafter
    exact ⟨fun _ => Iff.rfl, fun r => mem_filter_oneSchema⟩

instance {σ ω : Type} (server : Server σ ω) (s : σ) : Decidable (server.NoClash s) :=
  decidable_of_iff (((server.schemas s).map fun x => lower x.2).Nodup ∧
    ((server.tables s).map fun r => (r.schema, r.entry.key)).Nodup)
    ⟨fun h => ⟨h.1, h.2⟩, fun h => ⟨h.schemas, h.tables⟩⟩

def attachedAsQ : Attached := ⟨lit "q", id⟩

/-- A view is created, and the table is replaced under another spelling of its name. -/
def createThenReplace : List (Action (List Entry) Unit) :=
  [.ddl (.create (lit "main") ⟨.viewEntry, lit "v", lit "SELECT 1"⟩ .ignoreOnConflict) (),
    .ddl (.create (lit "MAIN") ⟨.tableEntry, lit "T", lit "j VARCHAR"⟩ .replaceOnConflict) ()]

/-- On a server with one table. -/
theorem coherent_iff_faithful_createThenReplace :
    let s : State (List Entry) := { server := [⟨.tableEntry, lit "t", lit "i INTEGER"⟩] }
    let u := (step attachedAsQ oneSchema s (.refresh 1 2)).get rfl
    (run (step attachedAsQ oneSchema) u createThenReplace).map State.server =
        some [⟨.tableEntry, lit "T", lit "j VARCHAR"⟩, ⟨.viewEntry, lit "v", lit "SELECT 1"⟩] ∧
      Always (step attachedAsQ oneSchema) (Coherent attachedAsQ oneSchema) u createThenReplace := by
  intro s u
  have hrefresh : step attachedAsQ oneSchema s (.refresh 1 2) = some u := (Option.some_get _).symm
  have hcomplete : Complete oneSchema s.server 1 2 := ⟨by decide, by simp [oneSchema, s]⟩
  have hclash : Always (step attachedAsQ oneSchema) (fun s => oneSchema.NoClash s.server) u
      createThenReplace := by
    decide
  have hrun : (run (step attachedAsQ oneSchema) u createThenReplace).isSome = true := by decide
  have hmeets : Meets (step attachedAsQ oneSchema) (Faithful attachedAsQ oneSchema) u createThenReplace := by
    exact ⟨fun _ _ h _ => alone_of_sent h, fun _ _ => ⟨fun _ _ h _ => alone_of_sent h, fun _ _ => trivial⟩⟩
  refine ⟨by decide, ?_⟩
  have hrun' := (Option.some_get hrun).symm
  exact (coherent_iff_faithful lawful_oneSchema hrefresh hcomplete hclash hrun').mpr hmeets

end Harbor.Quack.Storage
