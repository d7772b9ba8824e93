/-
**The map of connections of `SimpleWebSocketServer`.**

The socket layer keeps a set of the connections that are open, and tells `SimpleWebSocketServer` about
each of them by `on_open`, `on_close` and `on_error`.  `SimpleWebSocketServer` keeps a map of its own,
from the address and the port of a connection to the connection, and sends to what is in that map.  An
entry is set and removed by its key, so it may be overwritten or removed on behalf of another
connection with the same address and port.

Main definitions:

* `SimpleWeb.SimpleWebSocketServer.State`, `SimpleWeb.SimpleWebSocketServer.act` — both collections,
  and what happens to a connection;
* `SimpleWeb.SimpleWebSocketServer.State.Faithful` — the map has one entry for each open connection,
  and no other;
* `SimpleWeb.SimpleWebSocketServer.Distinct` — no other open connection has the address and the port.

Main results:

* `SimpleWeb.SimpleWebSocketServer.faithful_act_iff` — the step lemma;
* `SimpleWeb.SimpleWebSocketServer.faithful_iff` — **which runs keep the map faithful**;
* `SimpleWeb.SimpleWebSocketServer.connection_forgotten` — a client that reconnects from its port.
-/

import SimpleWeb.Machine
import SimpleWeb.Strings
import Mathlib.Data.List.AList

set_option relaxedAutoImplicit false
set_option autoImplicit false

namespace SimpleWeb

/-! ### Maps that track a set -/

section Tracks

variable {ι κ : Type*} [DecidableEq κ] {key : ι → κ} {xs : Finset ι}
  {m : AList (fun _ : κ => ι)}

/-- The map has an entry from its key to each element of the set, and no other entry. -/
def Tracks (key : ι → κ) (xs : Finset ι) (m : AList (fun _ : κ => ι)) : Prop :=
  ∀ k x, m.lookup k = some x ↔ x ∈ xs ∧ key x = k

theorem Tracks.of_eqOn {key' : ι → κ} (h : Tracks key xs m) (hkey : ∀ x ∈ xs, key' x = key x) :
    Tracks key' xs m := by
  intro k x
  rw [h k x]
  refine and_congr_right ?_
  intro hx
  rw [hkey x hx]

/-- What the map leads to is each element, once. -/
theorem Tracks.values (h : Tracks key xs m) :
    (m.entries.map Sigma.snd).Nodup ∧ ∀ x, x ∈ m.entries.map Sigma.snd ↔ x ∈ xs := by
  have hentry : ∀ e ∈ m.entries, e.2 ∈ xs ∧ key e.2 = e.1 :=
    fun e he => (h e.1 e.2).1 (AList.mem_lookup_iff.2 he)
  constructor
  · refine m.nodupKeys.nodup.map_on ?_
    rintro ⟨k, x⟩ hx ⟨k', x'⟩ hx' heq
    obtain rfl : x = x' := heq
    have hkey := (hentry _ hx).2
    have hkey' := (hentry _ hx').2
    simp only at hkey hkey'
    rw [← hkey, ← hkey']
  · intro x
    rw [List.mem_map]
    constructor
    · rintro ⟨e, he, rfl⟩
      exact (hentry e he).1
    · intro hx
      exact ⟨⟨key x, x⟩, AList.mem_lookup_iff.1 ((h (key x) x).2 ⟨hx, rfl⟩), rfl⟩

variable [DecidableEq ι]

/-- Another entry does no harm if no other element has its key. -/
theorem Tracks.insert_iff (h : Tracks key xs m) (x : ι) :
    Tracks key (insert x xs) (m.insert (key x) x) ↔ ∀ y ∈ xs, y ≠ x → key y ≠ key x := by
  constructor
  · intro h' y hy hne hkey
    have hentry := (h' (key y) y).2 ⟨Finset.mem_insert_of_mem hy, rfl⟩
    rw [hkey, AList.lookup_insert] at hentry
    exact hne (Option.some.inj hentry).symm
  · intro hdistinct k y
    rw [Finset.mem_insert]
    by_cases hk : k = key x
    · subst hk
      rw [AList.lookup_insert, Option.some.injEq]
      constructor
      · rintro rfl
        exact ⟨Or.inl rfl, rfl⟩
      · rintro ⟨rfl | hy, hkey⟩
        · rfl
        · by_contra hne
          exact hdistinct y hy (Ne.symm hne) hkey
    · rw [AList.lookup_insert_ne hk, h k y]
      constructor
      · rintro ⟨hy, hkey⟩
        exact ⟨Or.inr hy, hkey⟩
      · rintro ⟨rfl | hy, hkey⟩
        · exact absurd hkey.symm hk
        · exact ⟨hy, hkey⟩

/-- An entry may be removed by its key if no other element has that key. -/
theorem Tracks.erase_iff (h : Tracks key xs m) (x : ι) :
    Tracks key (xs.erase x) (m.erase (key x)) ↔ ∀ y ∈ xs, y ≠ x → key y ≠ key x := by
  constructor
  · intro h' y hy hne hkey
    have hentry := (h' (key y) y).2 ⟨Finset.mem_erase.2 ⟨hne, hy⟩, rfl⟩
    rw [hkey, AList.lookup_erase] at hentry
    cases hentry
  · intro hdistinct k y
    rw [Finset.mem_erase]
    by_cases hk : k = key x
    · subst hk
      rw [AList.lookup_erase]
      refine iff_of_false nofun ?_
      rintro ⟨⟨hne, hy⟩, hkey⟩
      exact hdistinct y hy hne hkey
    · rw [AList.lookup_erase_ne hk, h k y]
      constructor
      · rintro ⟨hy, hkey⟩
        refine ⟨⟨?_, hy⟩, hkey⟩
        rintro rfl
        exact hk hkey.symm
      · rintro ⟨⟨-, hy⟩, hkey⟩
        exact ⟨hy, hkey⟩

theorem Tracks.length (h : Tracks key xs m) : m.entries.length = xs.card := by
  obtain ⟨hnodup, hmem⟩ := h.values
  have hset : (m.entries.map Sigma.snd).toFinset = xs := by
    ext x
    rw [List.mem_toFinset, hmem]
  rw [← hset, List.toFinset_card_of_nodup hnodup, List.length_map]

end Tracks

namespace SimpleWebSocketServer

/-! ### The state -/

/-- `asio::ip::tcp::endpoint`, with the address as `to_string` writes it. -/
structure Endpoint where
  address : Bytes := ascii "0.0.0.0"
  port : UInt16 := 0
  deriving DecidableEq

/-- The calls of the listeners. -/
inductive ListenerCall
  | connectionOpened (id : Bytes)
  | connectionClosed (id : Bytes) (status : ℤ) (reason : Bytes)
  | connectionError (id : Bytes) (message : Bytes)
  deriving DecidableEq

/-- The endpoint of each connection, the set `endpoint.connections` of the socket layer, and the
`connectionMap` of `SimpleWebSocketServer`. -/
structure State (ι : Type*) where
  endpoint : ι → Endpoint := fun _ => {}
  connections : Finset ι := ∅
  connectionMap : AList (fun _ : Bytes => ι) := ∅
  calls : List ListenerCall := []

variable {ι : Type*}

namespace State

/-- `getConnectionString`. -/
def getConnectionString (s : State ι) (connection : ι) : Bytes :=
  (s.endpoint connection).address ++ ascii ":" ++ toDecimal (s.endpoint connection).port.toNat

/-- Different endpoints have different ids: a port has no colon in it. -/
theorem getConnectionString_inj (s : State ι) {c c' : ι} :
    s.getConnectionString c = s.getConnectionString c' ↔ s.endpoint c = s.endpoint c' := by
  constructor
  · intro h
    have hcolon : ∀ n, 58 ∉ (toDecimal n).reverse := by
      intro n hmem
      have hbounds := mem_toDecimal (List.mem_reverse.1 hmem)
      exact absurd hbounds (by decide)
    have hfind : ∀ (a : Bytes) (n : ℕ), find (a ++ ascii ":" ++ toDecimal n).reverse 58 0 =
        some (toDecimal n).length := by
      intro a n
      have hreverse : (a ++ ascii ":" ++ toDecimal n).reverse =
          (toDecimal n).reverse ++ 58 :: a.reverse := by
        simp [ascii]
      rw [hreverse, find_append (hcolon n), List.length_reverse]
    have hlength := congrArg (fun id => find id.reverse 58 0) h
    simp only [getConnectionString, hfind, Option.some.injEq] at hlength
    obtain ⟨haddress, hport⟩ := List.append_inj' h hlength
    have haddress := List.append_cancel_right haddress
    have hport := UInt16.toNat_inj.1 (toDecimal_inj.1 hport)
    cases hc : s.endpoint c
    cases hc' : s.endpoint c'
    rw [hc, hc'] at haddress hport
    obtain rfl : _ = _ := haddress
    obtain rfl : _ = _ := hport
    rfl
  · intro h
    rw [getConnectionString, getConnectionString, h]

/-- `getNumActiveConnections`. -/
def getNumActiveConnections (s : State ι) : ℕ := s.connectionMap.entries.length

/-- `send`: the connections that are sent to. -/
def send (s : State ι) : List ι := s.connectionMap.entries.map Sigma.snd

def onNewConnectionCallback (s : State ι) (connection : ι) : State ι :=
  let id := s.getConnectionString connection
  { s with
    connectionMap := s.connectionMap.insert id connection
    calls := s.calls ++ [.connectionOpened id] }

def onConnectionCloseCallback (s : State ι) (connection : ι) (status : ℤ) (reason : Bytes) :
    State ι :=
  let id := s.getConnectionString connection
  { s with
    connectionMap := s.connectionMap.erase id
    calls := s.calls ++ [.connectionClosed id status reason] }

def onErrorCallback (s : State ι) (connection : ι) (message : Bytes) : State ι :=
  let id := s.getConnectionString connection
  { s with
    connectionMap := s.connectionMap.erase id
    calls := s.calls ++ [.connectionError id message] }

variable [DecidableEq ι]

/-- `write_handshake` stores the endpoint, unless `remote_endpoint` throws. -/
def writeHandshake (s : State ι) (connection : ι) (remoteEndpoint : Option Endpoint) : State ι :=
  match remoteEndpoint with
  | some endpoint => { s with endpoint := Function.update s.endpoint connection endpoint }
  | none => s

def connectionOpen (s : State ι) (connection : ι) : State ι :=
  { s with connections := insert connection s.connections }.onNewConnectionCallback connection

def connectionClose (s : State ι) (connection : ι) (status : ℤ) (reason : Bytes) : State ι :=
  { s with connections := s.connections.erase connection }.onConnectionCloseCallback connection
    status reason

def connectionError (s : State ι) (connection : ι) (message : Bytes) : State ι :=
  { s with connections := s.connections.erase connection }.onErrorCallback connection message

end State

/-- What happens to a connection. -/
inductive Act (ι : Type*)
  | writeHandshake (connection : ι) (remoteEndpoint : Option Endpoint)
  | connectionOpen (connection : ι)
  | connectionClose (connection : ι) (status : ℤ) (reason : Bytes)
  | connectionError (connection : ι) (message : Bytes)

section act

variable [DecidableEq ι]

def act (s : State ι) : Act ι → State ι
  | .writeHandshake connection remoteEndpoint => s.writeHandshake connection remoteEndpoint
  | .connectionOpen connection => s.connectionOpen connection
  | .connectionClose connection status reason => s.connectionClose connection status reason
  | .connectionError connection message => s.connectionError connection message

/-- The handshake of a connection comes before it is open; there is no other order among what may
happen to a connection, or to several. -/
def Allowed (s : State ι) : Act ι → Prop
  | .writeHandshake connection _ => connection ∉ s.connections
  | _ => True

instance (s : State ι) (a : Act ι) : Decidable (Allowed s a) :=
  match a with
  | .writeHandshake connection _ => inferInstanceAs (Decidable (connection ∉ s.connections))
  | .connectionOpen _ => .isTrue trivial
  | .connectionClose _ _ _ => .isTrue trivial
  | .connectionError _ _ => .isTrue trivial

/-! ### Faithful maps -/

/-- Each open connection has an entry from its id to it, and there is no other entry.  So `send`
reaches each open connection once, and their number is right. -/
structure State.Faithful (s : State ι) : Prop where
  entry : ∀ id connection, s.connectionMap.lookup id = some connection ↔
    connection ∈ s.connections ∧ s.getConnectionString connection = id
  send : s.send.Nodup ∧ ∀ connection, connection ∈ s.send ↔ connection ∈ s.connections
  count : s.getNumActiveConnections = s.connections.card

/-- No other open connection has the address and the port of the connection. -/
def Distinct (s : State ι) : Act ι → Prop
  | .writeHandshake _ _ => True
  | .connectionOpen connection | .connectionClose connection _ _ | .connectionError connection _ =>
      ∀ other ∈ s.connections, other ≠ connection → s.endpoint other ≠ s.endpoint connection

theorem State.faithful_iff_tracks (s : State ι) :
    s.Faithful ↔ Tracks s.getConnectionString s.connections s.connectionMap :=
  ⟨fun h => h.entry, fun h => ⟨h, h.values, h.length⟩⟩

/-- **The step lemma**: what happens to a connection keeps the map faithful if and only if no other
open connection has its address and port. -/
theorem faithful_act_iff {s : State ι} (hs : s.Faithful) {a : Act ι} (ha : Allowed s a) :
    (act s a).Faithful ↔ Distinct s a := by
  rw [State.faithful_iff_tracks] at hs ⊢
  have hdistinct : ∀ connection, (∀ other ∈ s.connections, other ≠ connection →
      s.getConnectionString other ≠ s.getConnectionString connection) ↔
      ∀ other ∈ s.connections, other ≠ connection → s.endpoint other ≠ s.endpoint connection := by
    intro connection
    simp only [ne_eq, s.getConnectionString_inj]
  cases a with
  | writeHandshake connection remoteEndpoint =>
      refine iff_of_true ?_ trivial
      cases remoteEndpoint with
      | none => exact hs
      | some endpoint =>
          refine hs.of_eqOn ?_
          intro other hother
          have hne : other ≠ connection := by
            rintro rfl
            exact ha hother
          simp only [act, State.writeHandshake, State.getConnectionString,
            Function.update_of_ne hne]
  | connectionOpen connection => exact (hs.insert_iff connection).trans (hdistinct connection)
  | connectionClose connection status reason =>
      exact (hs.erase_iff connection).trans (hdistinct connection)
  | connectionError connection message =>
      exact (hs.erase_iff connection).trans (hdistinct connection)

theorem faithful_init : (({} : State ι)).Faithful := by
  rw [State.faithful_iff_tracks]
  intro id connection
  simp

/-- **Which runs keep the map faithful.**  For every order of what may happen to any connections, the
map is faithful after each of it, if and only if no connection is opened, closed or fails while another
one that is open has its address and port. -/
theorem faithful_iff {acts : List (Act ι)} (hallowed : Machine.Along act Allowed {} acts) :
    (∀ pre, pre <+: acts → (pre.foldl act ({} : State ι)).Faithful) ↔
      Machine.Along act Distinct ({} : State ι) acts :=
  @Machine.along_iff _ _ act Allowed State.Faithful Distinct
    (fun _ _ hs ha => faithful_act_iff hs ha) {} faithful_init acts hallowed

/-- Two connections from different ports, of which the first one is closed. -/
theorem faithful_iff_two :
    (∀ pre, pre <+: [Act.writeHandshake 0 (some ⟨ascii "::1", 50000⟩), .connectionOpen 0,
        .writeHandshake 1 (some ⟨ascii "::1", 50001⟩), .connectionOpen 1,
        .connectionClose 0 1000 []] → (pre.foldl act ({} : State ℕ)).Faithful) ↔
      Machine.Along act Distinct ({} : State ℕ)
        [.writeHandshake 0 (some ⟨ascii "::1", 50000⟩), .connectionOpen 0,
          .writeHandshake 1 (some ⟨ascii "::1", 50001⟩), .connectionOpen 1,
          .connectionClose 0 1000 []] :=
  faithful_iff ⟨by decide, trivial, by decide, trivial, trivial, trivial⟩

/-! #### A client that reconnects -/

/-- A connection is opened, then another one from the same port, and then the first one fails. -/
def reconnecting : List (Act ℕ) :=
  [.writeHandshake 0 (some ⟨ascii "127.0.0.1", 50000⟩), .connectionOpen 0,
    .writeHandshake 1 (some ⟨ascii "127.0.0.1", 50000⟩), .connectionOpen 1,
    .connectionError 0 (ascii "End of file")]

/-- **A client that reconnects from its port is forgotten** when the error of its first connection is
delivered: it is open, and nothing is sent to it. -/
theorem connection_forgotten :
    Machine.Along act Allowed {} reconnecting ∧
    (reconnecting.foldl act ({} : State ℕ)).connections = {1} ∧
    (reconnecting.foldl act ({} : State ℕ)).send = [] ∧
    (reconnecting.foldl act ({} : State ℕ)).getNumActiveConnections = 0 ∧
    ¬ (reconnecting.foldl act ({} : State ℕ)).Faithful := by
  have hopen : (reconnecting.foldl act ({} : State ℕ)).connections = {1} := by decide
  have hsend : (reconnecting.foldl act ({} : State ℕ)).send = [] := by decide
  refine ⟨⟨by decide, trivial, by decide, trivial, trivial, trivial⟩, hopen, hsend, by decide, ?_⟩
  intro h
  have hmem := (h.send.2 1).2 (by rw [hopen]; exact Finset.mem_singleton_self 1)
  rw [hsend] at hmem
  cases hmem

end act

end SimpleWebSocketServer

end SimpleWeb
