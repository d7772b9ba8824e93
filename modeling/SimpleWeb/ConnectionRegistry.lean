/-
**The registry of the connections of the HTTP server.**

`ServerBase` (`webserver/server_http.hpp`) has a set of plain pointers to its connections, so that `stop`
can close them.  `create_connection` puts a connection in; what takes it out again is the deleter, when
the last reference to the connection is dropped, `find_resource`, before it hands the connection's socket
over to `on_upgrade`, and `stop`, which takes out all of them.  The deleters share the set with the
server, and may run when the server is gone.

Threads take their steps in any order: what is done under the mutex of the set is one step, except that
`stop`, which holds it for long, goes through the set step by step while the other threads do what they
can do without it.  A pointer may be used again when its connection has been deleted.  The destructor of
the server is a `stop`, and then the server is gone.

Main definitions:

* `SimpleWeb.ServerBase.Registry` — the connections there are, and the set;
* `SimpleWeb.ServerBase.Registry.act`, `SimpleWeb.ServerBase.Registry.Reachable` — the steps, in any
  order;
* `SimpleWeb.ServerBase.Registry.Connection.Registered` — what a connection in the set is like;
* `SimpleWeb.ServerBase.Registry.Sound` — the invariant.

Main results:

* `SimpleWeb.ServerBase.Registry.Sound.act` — what one step preserves;
* `SimpleWeb.ServerBase.Registry.set_usable` — **the set has only usable connections, and `stop` closes
  each of them once**.
-/

import SimpleWeb.Machine

set_option relaxedAutoImplicit false
set_option autoImplicit false

namespace SimpleWeb.ServerBase

/-- A connection is made, then put into the set, and then there are references to it; when there are
none, it is taken out of the set and then deleted. -/
inductive Registry.Phase
  | constructed
  | referenced
  | released
  | unregistered
  deriving DecidableEq

/-- A connection that has not been deleted.  `socket` is whether it has one, and `upgrading` is how many
calls of `find_resource` have taken it out of the set and not yet handed its socket over. -/
structure Registry.Connection where
  references : ℕ := 1
  socket : Bool := true
  upgrading : ℕ := 0
  phase : Registry.Phase := .constructed

/-- A call of `stop`: what was in the set when it took the mutex, what it has called `close` on, and what
its loop has not come to. -/
structure Registry.Stop (ι : Type*) where
  registered : List ι
  closed : List ι
  rest : List ι

/-- `stopping` is the call that holds the mutex, and `stops` are those that have returned. -/
structure Registry (ι : Type*) where
  server : Bool := true
  acceptor : Bool := false
  heap : ι → Option Registry.Connection := fun _ => none
  set : List ι := []
  stopping : Option (Registry.Stop ι) := none
  stops : List (Registry.Stop ι) := []

namespace Registry

variable {ι : Type*} [DecidableEq ι]

/-! ### Steps -/

/-- The steps of `start`, of `create_connection`, of whoever has a reference, of the deleter, of
`find_resource` and `on_upgrade`, of `stop`, and of the destructor. -/
inductive Act (ι : Type*)
  | start
  | construct (connection : ι)
  | emplace (connection : ι)
  | copy (connection : ι)
  | drop (connection : ι)
  | unregister (connection : ι)
  | delete (connection : ι)
  | upgrade (connection : ι)
  | moveSocket (connection : ι)
  | stop
  | close
  | clear
  | destroy

/-- A reference is dropped; the last one begins the deleter. -/
def Connection.drop (c : Connection) : Connection :=
  if c.references = 1 then { c with references := 0, phase := .released }
  else { c with references := c.references - 1 }

def modify (s : Registry ι) (connection : ι) (f : Connection → Connection) : Registry ι :=
  { s with heap := Function.update s.heap connection ((s.heap connection).map f) }

def act (s : Registry ι) : Act ι → Registry ι
  | .start => { s with acceptor := true }
  | .construct connection => { s with heap := Function.update s.heap connection (some {}) }
  | .emplace connection =>
      { s with set := if connection ∈ s.set then s.set else connection :: s.set }.modify connection
        fun c => { c with phase := .referenced }
  | .copy connection => s.modify connection fun c => { c with references := c.references + 1 }
  | .drop connection => s.modify connection Connection.drop
  | .unregister connection =>
      { s with set := s.set.erase connection }.modify connection
        fun c => { c with phase := .unregistered }
  | .delete connection => { s with heap := Function.update s.heap connection none }
  | .upgrade connection =>
      { s with set := s.set.erase connection }.modify connection
        fun c => { c with upgrading := c.upgrading + 1 }
  | .moveSocket connection =>
      s.modify connection fun c => { c with socket := false, upgrading := c.upgrading - 1 }
  | .stop =>
      if s.acceptor then { s with stopping := some ⟨s.set, [], s.set⟩ }
      else { s with stops := ⟨s.set, [], []⟩ :: s.stops }
  | .close =>
      match s.stopping with
      | some ⟨registered, closed, connection :: rest⟩ =>
          { s with stopping := some ⟨registered, closed ++ [connection], rest⟩ }
      | _ => s
  | .clear =>
      match s.stopping with
      | some stop => { s with set := [], stopping := none, stops := stop :: s.stops }
      | none => s
  | .destroy => { s with server := false }

/-- There is a connection, in a given phase. -/
def In (s : Registry ι) (phase : Phase) (connection : ι) : Prop :=
  ∃ c, s.heap connection = some c ∧ c.phase = phase

/-- The members of the server are used while there is one; the mutex is free unless `stop` has it; a
reference that `find_resource` needs is not dropped; and memory is used again only when it is free. -/
def Allowed (s : Registry ι) : Act ι → Prop
  | .start => s.server = true ∧ s.stopping = none
  | .construct connection => s.server = true ∧ s.acceptor = true ∧ s.heap connection = none
  | .emplace connection => s.stopping = none ∧ s.In .constructed connection
  | .copy connection => s.In .referenced connection
  | .drop connection =>
      ∃ c, s.heap connection = some c ∧ c.phase = .referenced ∧ c.upgrading < c.references
  | .unregister connection => s.stopping = none ∧ s.In .released connection
  | .delete connection => s.In .unregistered connection
  | .upgrade connection => s.server = true ∧ s.stopping = none ∧ s.In .referenced connection
  | .moveSocket connection =>
      ∃ c, s.heap connection = some c ∧ c.phase = .referenced ∧ 0 < c.upgrading
  | .stop => s.server = true ∧ s.stopping = none
  | .close => ∃ stop, s.stopping = some stop ∧ stop.rest ≠ []
  | .clear => ∃ stop, s.stopping = some stop ∧ stop.rest = []
  | .destroy => s.server = true ∧ s.stopping = none

/-- What is asked of the thing that there is. -/
instance decidableSome {α : Type*} (o : Option α) (P : α → Prop) [DecidablePred P] :
    Decidable (∃ c, o = some c ∧ P c) :=
  match o with
  | none => isFalse (by simp)
  | some c => decidable_of_iff (P c) (by simp)

instance (s : Registry ι) (a : Act ι) : Decidable (Allowed s a) := by
  cases a <;> unfold Allowed <;> (try unfold In) <;> infer_instance

/-- Any order of the steps, from a new server. -/
def Reachable : Registry ι → Prop := Machine.Reach act Allowed (· = {})

/-- The steps that look at the set or change it. -/
def Act.UsesSet : Act ι → Prop
  | .emplace _ | .unregister _ | .upgrade _ | .stop | .close | .clear => True
  | _ => False

/-- The server and the deleters of the connections share the set; it is deleted when all of them are
gone. -/
def Held (s : Registry ι) : Prop := s.server = true ∨ ∃ connection, s.heap connection ≠ none

/-! ### The invariant -/

/-- What a connection in the set is like. -/
structure Connection.Registered (c : Connection) : Prop where
  socket : c.socket = true
  upgrading : c.upgrading = 0
  phase : c.phase = .referenced ∨ c.phase = .released

/-- What a connection is like before it is put into the set. -/
def Connection.Fresh (c : Connection) : Prop :=
  c.phase = .constructed → c.socket = true ∧ c.upgrading = 0

theorem Connection.fresh_of_ne {c : Connection} (h : c.phase ≠ .constructed) : c.Fresh :=
  fun hconstructed => absurd hconstructed h

structure Sound (s : Registry ι) : Prop where
  nodup : s.set.Nodup
  registered : ∀ connection ∈ s.set, ∃ c, s.heap connection = some c ∧ c.Registered
  constructed : ∀ connection c, s.heap connection = some c → c.Fresh
  acceptor : s.acceptor = false → ∀ connection, s.heap connection = none
  stopping : ∀ stop, s.stopping = some stop →
    stop.registered = s.set ∧ stop.registered = stop.closed ++ stop.rest
  stops : ∀ stop ∈ s.stops, stop.closed = stop.registered ∧ stop.registered.Nodup
  server : s.stopping ≠ none → s.server = true

variable {s : Registry ι} {connection : ι}

omit [DecidableEq ι] in
theorem sound_init : Sound ({} : Registry ι) where
  nodup := List.nodup_nil
  registered := nofun
  constructed := nofun
  acceptor _ _ := rfl
  stopping := nofun
  stops := nofun
  server := absurd rfl

namespace Sound

/-- The memory of a connection changes; if it is in the set, it stays usable. -/
theorem update (h : Sound s) {o : Option Connection}
    (hset : connection ∈ s.set → ∃ c, o = some c ∧ c.Registered) (hfresh : ∀ c, o = some c → c.Fresh)
    (hacceptor : s.acceptor = false → o = none) :
    Sound { s with heap := Function.update s.heap connection o } where
  nodup := h.nodup
  registered q hq := by
    by_cases heq : q = connection
    · subst heq
      simp only [Function.update_self]
      exact hset hq
    · simp only [Function.update_of_ne heq]
      exact h.registered q hq
  constructed q := by
    by_cases heq : q = connection
    · subst heq
      simp only [Function.update_self]
      exact hfresh
    · simp only [Function.update_of_ne heq]
      exact h.constructed q
  acceptor hnone q := by
    by_cases heq : q = connection
    · subst heq
      simp only [Function.update_self]
      exact hacceptor hnone
    · simp only [Function.update_of_ne heq]
      exact h.acceptor hnone q
  stopping := h.stopping
  stops := h.stops
  server := h.server

theorem modify (h : Sound s) {c : Connection} (hc : s.heap connection = some c)
    {f : Connection → Connection} (hset : connection ∈ s.set → (f c).Registered)
    (hfresh : (f c).Fresh) : Sound (s.modify connection f) := by
  refine h.update ?_ ?_ ?_
  · intro hmem
    exact ⟨f c, by rw [hc]; rfl, hset hmem⟩
  · intro d hd
    rw [hc] at hd
    exact Option.some.inj hd ▸ hfresh
  · intro hnone
    rw [h.acceptor hnone connection]
    rfl

omit [DecidableEq ι] in
/-- The set changes while the mutex is free. -/
theorem withSet (h : Sound s) (hfree : s.stopping = none) {set : List ι} (hnodup : set.Nodup)
    (hset : ∀ q ∈ set, ∃ c, s.heap q = some c ∧ c.Registered) : Sound { s with set := set } where
  nodup := hnodup
  registered := hset
  constructed := h.constructed
  acceptor := h.acceptor
  stopping stop hstop := by
    rw [show s.stopping = some stop from hstop] at hfree
    cases hfree
  stops := h.stops
  server := h.server

omit [DecidableEq ι] in
/-- A connection in the set is like one. -/
theorem of_mem (h : Sound s) {c : Connection} (hc : s.heap connection = some c)
    (hmem : connection ∈ s.set) : c.Registered := by
  obtain ⟨d, hd, hregistered⟩ := h.registered connection hmem
  rw [hc] at hd
  exact Option.some.inj hd ▸ hregistered

theorem erase (h : Sound s) (hfree : s.stopping = none) (connection : ι) :
    Sound { s with set := s.set.erase connection } :=
  h.withSet hfree (h.nodup.erase connection) fun q hq => h.registered q (List.mem_of_mem_erase hq)

omit [DecidableEq ι] in
/-- A connection in the set is referenced, or its deleter waits for the mutex. -/
theorem not_mem (h : Sound s) {c : Connection} (hc : s.heap connection = some c)
    (hreferenced : c.phase ≠ .referenced) (hreleased : c.phase ≠ .released) :
    connection ∉ s.set := by
  intro hmem
  rcases (h.of_mem hc hmem).phase with hphase | hphase
  · exact hreferenced hphase
  · exact hreleased hphase

/-- `create_connection` puts in what it has made. -/
theorem emplace (h : Sound s) (hfree : s.stopping = none) {c : Connection}
    (hc : s.heap connection = some c) (hphase : c.phase = .constructed) :
    Sound (s.act (.emplace connection)) := by
  obtain ⟨hsocket, hupgrading⟩ := h.constructed connection c hc hphase
  have hout : connection ∉ s.set :=
    h.not_mem hc (by rw [hphase]; nofun) (by rw [hphase]; nofun)
  have hregistered : ({ c with phase := .referenced } : Connection).Registered :=
    ⟨hsocket, hupgrading, Or.inl rfl⟩
  have hnext := h.modify hc (f := fun c => { c with phase := .referenced })
    (fun _ => hregistered) nofun
  have hthere : (s.modify connection fun c => { c with phase := .referenced }).heap connection =
      some { c with phase := .referenced } := by
    simp [Registry.modify, hc]
  simp only [Registry.act, if_neg hout]
  refine hnext.withSet hfree (List.nodup_cons.2 ⟨hout, h.nodup⟩) ?_
  intro q hq
  rcases List.mem_cons.1 hq with rfl | hq
  · exact ⟨_, hthere, hregistered⟩
  · exact hnext.registered q hq

/-- `stop` takes the mutex. -/
theorem stop (h : Sound s) (hserver : s.server = true) : Sound (s.act .stop) := by
  simp only [Registry.act]
  split
  · refine ⟨h.nodup, h.registered, h.constructed, h.acceptor, ?_, h.stops, fun _ => hserver⟩
    rintro stop hstop
    obtain rfl := Option.some.inj hstop
    exact ⟨rfl, rfl⟩
  · next hacceptor =>
      -- there has never been a connection
      have hnil : s.set = [] := by
        refine List.eq_nil_iff_forall_not_mem.2 ?_
        intro q hq
        obtain ⟨c, hc, -⟩ := h.registered q hq
        rw [h.acceptor (by simpa using hacceptor) q] at hc
        cases hc
      refine ⟨h.nodup, h.registered, h.constructed, h.acceptor, h.stopping, ?_, h.server⟩
      intro stop hstop
      rcases List.mem_cons.1 hstop with rfl | hstop
      · exact ⟨hnil.symm, h.nodup⟩
      · exact h.stops stop hstop

omit [DecidableEq ι] in
/-- `stop` goes on to the next connection. -/
theorem close (h : Sound s) {registered closed rest : List ι}
    (hstop : s.stopping = some ⟨registered, closed, connection :: rest⟩) :
    Sound { s with stopping := some ⟨registered, closed ++ [connection], rest⟩ } := by
  obtain ⟨hset, hsplit⟩ := h.stopping _ hstop
  have hserver := h.server (by rw [hstop]; nofun)
  refine ⟨h.nodup, h.registered, h.constructed, h.acceptor, ?_, h.stops, fun _ => hserver⟩
  rintro stop hnext
  obtain rfl := Option.some.inj hnext
  exact ⟨hset, by simpa using hsplit⟩

omit [DecidableEq ι] in
/-- `stop` has been through the set. -/
theorem clear (h : Sound s) {stop : Stop ι} (hstop : s.stopping = some stop)
    (hrest : stop.rest = []) :
    Sound { s with set := [], stopping := none, stops := stop :: s.stops } := by
  obtain ⟨hset, hsplit⟩ := h.stopping stop hstop
  refine ⟨List.nodup_nil, nofun, h.constructed, h.acceptor, nofun, ?_, absurd rfl⟩
  intro other hother
  rcases List.mem_cons.1 hother with rfl | hother
  · rw [hrest, List.append_nil] at hsplit
    exact ⟨hsplit.symm, hset ▸ h.nodup⟩
  · exact h.stops other hother

/-- **What one step preserves.** -/
theorem act (h : Sound s) {a : Act ι} (ha : Allowed s a) : Sound (s.act a) := by
  cases a with
  | start => exact ⟨h.nodup, h.registered, h.constructed, nofun, h.stopping, h.stops, h.server⟩
  | construct connection =>
      obtain ⟨-, hacceptor, hnone⟩ := ha
      refine h.update ?_ ?_ ?_
      · intro hmem
        obtain ⟨c, hc, -⟩ := h.registered connection hmem
        rw [hnone] at hc
        cases hc
      · rintro c hc -
        obtain rfl := Option.some.inj hc
        exact ⟨rfl, rfl⟩
      · intro hno
        rw [hacceptor] at hno
        cases hno
  | emplace connection =>
      obtain ⟨hfree, c, hc, hphase⟩ := ha
      exact h.emplace hfree hc hphase
  | copy connection =>
      obtain ⟨c, hc, hphase⟩ := ha
      refine h.modify hc ?_ ?_
      · intro hmem
        have hregistered := h.of_mem hc hmem
        exact ⟨hregistered.socket, hregistered.upgrading, hregistered.phase⟩
      · exact h.constructed connection c hc
  | drop connection =>
      obtain ⟨c, hc, hphase, -⟩ := ha
      refine h.modify hc ?_ ?_
      · intro hmem
        have hregistered := h.of_mem hc hmem
        unfold Connection.drop
        split
        · exact ⟨hregistered.socket, hregistered.upgrading, Or.inr rfl⟩
        · exact ⟨hregistered.socket, hregistered.upgrading, hregistered.phase⟩
      · unfold Connection.drop
        split
        · exact nofun
        · exact h.constructed connection c hc
  | unregister connection =>
      obtain ⟨hfree, c, hc, -⟩ := ha
      exact (h.erase hfree connection).modify hc (fun hmem => absurd hmem h.nodup.not_mem_erase) nofun
  | delete connection =>
      obtain ⟨c, hc, hphase⟩ := ha
      have hout : connection ∉ s.set :=
        h.not_mem hc (by rw [hphase]; nofun) (by rw [hphase]; nofun)
      exact h.update (fun hmem => absurd hmem hout) nofun fun _ => rfl
  | upgrade connection =>
      obtain ⟨-, hfree, c, hc, hphase⟩ := ha
      exact (h.erase hfree connection).modify hc (fun hmem => absurd hmem h.nodup.not_mem_erase)
        (Connection.fresh_of_ne (by rw [hphase]; nofun))
  | moveSocket connection =>
      obtain ⟨c, hc, hphase, hupgrading⟩ := ha
      refine h.modify hc ?_ ?_
      · intro hmem
        have := (h.of_mem hc hmem).upgrading
        omega
      · exact Connection.fresh_of_ne (by rw [hphase]; nofun)
  | stop => exact h.stop ha.1
  | close =>
      obtain ⟨⟨registered, closed, rest⟩, hstop, hrest⟩ := ha
      cases rest with
      | nil => exact absurd rfl hrest
      | cons q rest =>
          simp only [Registry.act, hstop]
          exact h.close hstop
  | clear =>
      obtain ⟨stop, hstop, hrest⟩ := ha
      simp only [Registry.act, hstop]
      exact h.clear hstop hrest
  | destroy =>
      exact ⟨h.nodup, h.registered, h.constructed, h.acceptor, h.stopping, h.stops,
        fun hstopping => absurd ha.2 hstopping⟩

end Sound

theorem Reachable.sound (h : Reachable s) : Sound s :=
  h.invariant (by rintro _ rfl; exact sound_init) fun _ _ hs ha => hs.act ha

omit [DecidableEq ι] in
/-- The set is there for whoever uses it. -/
theorem Sound.held (h : Sound s) {a : Act ι} (ha : Allowed s a) (huses : a.UsesSet) : s.Held := by
  cases a with
  | emplace connection =>
      obtain ⟨-, c, hc, -⟩ := ha
      exact Or.inr ⟨connection, by rw [hc]; nofun⟩
  | unregister connection =>
      obtain ⟨-, c, hc, -⟩ := ha
      exact Or.inr ⟨connection, by rw [hc]; nofun⟩
  | upgrade connection => exact Or.inl ha.1
  | stop => exact Or.inl ha.1
  | close =>
      obtain ⟨stop, hstop, -⟩ := ha
      exact Or.inl (h.server (by rw [hstop]; nofun))
  | clear =>
      obtain ⟨stop, hstop, -⟩ := ha
      exact Or.inl (h.server (by rw [hstop]; nofun))
  | start => cases huses
  | construct connection => cases huses
  | copy connection => cases huses
  | drop connection => cases huses
  | delete connection => cases huses
  | moveSocket connection => cases huses
  | destroy => cases huses

/-- **The set has only usable connections**, in every order of the steps: each of its pointers is that
of a connection that has not been deleted and has a socket, and is there once.  While `stop` goes
through the set, the set stays as it was; each `stop` that has returned has called `close` once on each
connection that was in the set, and on no other; and nobody uses the set when it has been deleted. -/
theorem set_usable (h : Reachable s) :
    s.set.Nodup ∧
    (∀ connection ∈ s.set, ∃ c, s.heap connection = some c ∧ c.socket = true) ∧
    (∀ stop, s.stopping = some stop →
      stop.registered = s.set ∧ stop.registered = stop.closed ++ stop.rest) ∧
    (∀ stop ∈ s.stops, stop.closed = stop.registered ∧ stop.registered.Nodup) ∧
    ∀ a : Act ι, Allowed s a → a.UsesSet → s.Held := by
  have hsound := h.sound
  refine ⟨hsound.nodup, ?_, hsound.stopping, hsound.stops, fun a => hsound.held⟩
  intro connection hmem
  obtain ⟨c, hc, hregistered⟩ := hsound.registered connection hmem
  exact ⟨c, hc, hregistered.socket⟩

/-- Two connections, of which one is upgraded.  The last reference to the other one is dropped while
`stop` has the mutex; it is deleted when the server is gone. -/
def sampleRun : List (Act ℕ) :=
  [.start, .construct 0, .emplace 0, .construct 1, .emplace 1, .upgrade 1, .stop, .drop 0, .moveSocket 1,
    .close, .clear, .destroy, .unregister 0, .delete 0, .drop 1, .unregister 1, .delete 1]

theorem set_usable_sample :
    Reachable (sampleRun.foldl act {}) ∧
    (sampleRun.foldl act {}).stops.map Stop.closed = [[0]] ∧
    ∀ stop ∈ (sampleRun.foldl act {}).stops, stop.closed = stop.registered := by
  have hreach : Reachable (sampleRun.foldl act {}) := Machine.Reach.foldl (.init rfl) (by decide)
  exact ⟨hreach, by decide, fun stop hstop => ((set_usable hreach).2.2.2.1 stop hstop).1⟩

end Registry

end SimpleWeb.ServerBase
