import Mathlib.Tactic
import Harbor.Lib.Runs

set_option autoImplicit false

/-! # The clients of a connection

A `QuackClientConnection` hands its HTTP clients out in wrappers and keeps a few of those that come back.
`GetClient` and `StoreClient` hold the lock of the connection; a wrapper keeps the connection alive, so that
the destructor runs when no wrapper is left. Clients are named by the order in which they were opened.
-/

namespace Harbor.Quack.ClientPool

open Runs

/-- A `QuackClientConnection`, and the clients that are in wrappers. -/
structure State where
  maxConnectionsCached : Nat
  cachedClients : List Nat
  inUse : List Nat := []
  opened : Nat
  /-- Set by the destructor: whether the session was disconnected. -/
  disconnected : Option Bool := none
deriving DecidableEq, Repr

inductive Action where
  /-- `GetClient`; a client that has to be opened may not be. -/
  | getClient (ok : Bool)
  /-- The destructor of the wrapper, with `StoreClient`. -/
  | release (client : Nat)
  /-- The destructor of the connection. -/
  | destroy
deriving DecidableEq, Repr

/-- `StoreClient`; a client that is not kept is closed. -/
def storeClient (maxConnectionsCached : Nat) (cachedClients : List Nat) (client : Nat) : List Nat :=
  if cachedClients.length ≥ maxConnectionsCached then cachedClients else cachedClients ++ [client]

/-- The constructor, with the client that `ConnectToServer` has connected with. -/
def connect (maxConnectionsCached : Nat) : State :=
  { maxConnectionsCached, cachedClients := storeClient maxConnectionsCached [] 0, opened := 1 }

def step (s : State) : Action → Option State
  | .getClient ok =>
      if s.disconnected.isSome then none
      else
        match s.cachedClients.getLast? with
        | some client =>
            some { s with cachedClients := s.cachedClients.dropLast, inUse := s.inUse ++ [client] }
        | none =>
            if ok then some { s with inUse := s.inUse ++ [s.opened], opened := s.opened + 1 } else some s
  | .release client =>
      if client ∈ s.inUse then
        some { s with
          inUse := s.inUse.erase client
          cachedClients := storeClient s.maxConnectionsCached s.cachedClients client }
      else none
  | .destroy =>
      if s.inUse = [] ∧ s.disconnected = none then
        some { s with disconnected := some !s.cachedClients.isEmpty }
      else none

/-! ## The invariant -/

/-- Each client is in one place, and the connection has one as long as it may keep one. -/
structure Inv (max : Nat) (s : State) : Prop where
  limit : s.maxConnectionsCached = max
  bound : s.cachedClients.length ≤ max
  apart : (s.cachedClients ++ s.inUse).Nodup
  known : ∀ client ∈ s.cachedClients ++ s.inUse, client < s.opened
  kept : 0 < max → s.cachedClients ++ s.inUse ≠ []
  disconnected : 0 < max → s.disconnected ≠ some false

theorem mem_storeClient {max client c : Nat} {clients : List Nat}
    (h : c ∈ storeClient max clients client) : c ∈ clients ∨ c = client := by
  unfold storeClient at h
  split at h
  · exact Or.inl h
  · obtain h | h := List.mem_append.mp h
    · exact Or.inl h
    · exact Or.inr (List.mem_singleton.mp h)

theorem length_storeClient {max : Nat} {clients : List Nat} (h : clients.length ≤ max) (client : Nat) :
    (storeClient max clients client).length ≤ max := by
  unfold storeClient
  split
  · exact h
  · rw [List.length_append, List.length_singleton]
    omega

/-- Something is kept when anything may be. -/
theorem storeClient_ne_nil {max : Nat} (hmax : 0 < max) (clients : List Nat) (client : Nat) :
    storeClient max clients client ≠ [] := by
  unfold storeClient
  split
  · rename_i hfull
    exact List.ne_nil_of_length_pos (hmax.trans_le hfull)
  · simp

theorem inv_connect (max : Nat) : Inv max (connect max) := by
  refine ⟨rfl, length_storeClient (Nat.zero_le _) 0, ?_, ?_, fun hmax => ?_, fun _ => by simp [connect]⟩
  · unfold connect storeClient
    split <;> simp
  · intro client hclient
    rw [connect, List.append_nil] at hclient
    obtain hclient | rfl := mem_storeClient hclient
    · cases hclient
    · exact Nat.zero_lt_one
  · rw [connect, List.append_nil]
    exact storeClient_ne_nil hmax _ _

theorem inv_step {max : Nat} {s t : State} {a : Action} (hs : Inv max s) (h : step s a = some t) :
    Inv max t := by
  cases a with
  | getClient ok =>
      unfold step at h
      dsimp only at h
      split at h
      · cases h
      · split at h
        · rename_i client hlast
          obtain rfl := Option.some.inj h
          -- the client goes from one list to the other
          have hsplit : s.cachedClients.dropLast ++ [client] = s.cachedClients :=
            List.dropLast_append_getLast? client hlast
          have hperm : (s.cachedClients.dropLast ++ (s.inUse ++ [client])).Perm
              (s.cachedClients ++ s.inUse) := by
            conv_rhs => rw [← hsplit]
            rw [List.append_assoc]
            exact List.Perm.append_left _ List.perm_append_comm
          refine ⟨hs.limit, ?_, hperm.nodup_iff.mpr hs.apart, fun c hc => hs.known c (hperm.mem_iff.mp hc),
            fun _ => by simp, hs.disconnected⟩
          exact (List.dropLast_sublist _).length_le.trans hs.bound
        · split at h
          · obtain rfl := Option.some.inj h
            refine ⟨hs.limit, hs.bound, ?_, fun c hc => ?_, fun _ => by simp, hs.disconnected⟩
            · dsimp only
              rw [← List.append_assoc, List.nodup_append]
              refine ⟨hs.apart, List.nodup_singleton _, fun c hc d hd => ?_⟩
              rw [List.mem_singleton.mp hd]
              exact Nat.ne_of_lt (hs.known c hc)
            · dsimp only at hc
              rw [← List.append_assoc] at hc
              obtain hc | hc := List.mem_append.mp hc
              · exact Nat.lt_succ_of_lt (hs.known c hc)
              · rw [List.mem_singleton.mp hc]
                exact Nat.lt_succ_self _
          · obtain rfl := Option.some.inj h
            exact hs
  | release client =>
      unfold step at h
      dsimp only at h
      split at h
      · rename_i hclient
        obtain rfl := Option.some.inj h
        have hparts := List.nodup_append.mp hs.apart
        refine ⟨hs.limit, ?_, ?_, fun c hc => ?_, fun hmax => ?_, hs.disconnected⟩
        · rw [hs.limit]
          exact length_storeClient hs.bound client
        · dsimp only
          rw [List.nodup_append]
          refine ⟨?_, hparts.2.1.erase client, fun c hc d hd => ?_⟩
          · unfold storeClient
            split
            · exact hparts.1
            · rw [List.nodup_append]
              refine ⟨hparts.1, List.nodup_singleton _, fun c hc d hd => ?_⟩
              rw [List.mem_singleton.mp hd]
              exact hparts.2.2 c hc client hclient
          · rintro rfl
            obtain hc | rfl := mem_storeClient hc
            · exact hparts.2.2 c hc c (List.mem_of_mem_erase hd) rfl
            · exact hparts.2.1.not_mem_erase hd
        · obtain hc | hc := List.mem_append.mp hc
          · obtain hc | rfl := mem_storeClient hc
            · exact hs.known c (List.mem_append_left _ hc)
            · exact hs.known c (List.mem_append_right _ hclient)
          · exact hs.known c (List.mem_append_right _ (List.mem_of_mem_erase hc))
        · rw [Ne, List.append_eq_nil_iff, hs.limit]
          exact fun hnil => storeClient_ne_nil hmax _ _ hnil.1
      · cases h
  | destroy =>
      unfold step at h
      dsimp only at h
      split at h
      · rename_i hend
        obtain rfl := Option.some.inj h
        refine ⟨hs.limit, hs.bound, hs.apart, hs.known, hs.kept, fun hmax hfalse => ?_⟩
        have hne := hs.kept hmax
        rw [hend.1, List.append_nil] at hne
        have hempty : s.cachedClients.isEmpty = true := by simpa using hfalse
        exact hne (List.isEmpty_iff.mp hempty)
      · cases h

/-- **The clients of a connection.** For any interleaving of threads that take and give back clients: no
client is in two wrappers, or in a wrapper and kept at the same time; at most `max` are kept; and when the
connection is destroyed, it has kept one to disconnect its session with. -/
theorem clients_apart {max : Nat} (hmax : 0 < max) {as : List Action} {s : State}
    (hrun : run step (connect max) as = some s) :
    (s.cachedClients ++ s.inUse).Nodup ∧ s.cachedClients.length ≤ max ∧ s.disconnected ≠ some false := by
  have hs := run_invariant (I := Inv max) (fun _ _ _ hs _ h => inv_step hs h)
    (inv_connect max) (meets_true _ _) hrun
  exact ⟨hs.apart, hs.bound, hs.disconnected hmax⟩

/-- Two clients are taken and given back, of which one is kept. -/
def twoClients : List Action :=
  [.getClient true, .getClient true, .release 0, .release 1, .destroy]

theorem clients_apart_two :
    let s := (run step (connect 1) twoClients).get rfl
    (s.cachedClients ++ s.inUse).Nodup ∧ s.cachedClients.length ≤ 1 ∧ s.disconnected ≠ some false := by
  intro s
  have hrun : run step (connect 1) twoClients = some s := (Option.some_get _).symm
  exact clients_apart (by decide) hrun

end Harbor.Quack.ClientPool
