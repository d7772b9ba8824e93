/-
**Whom the messages of a server's program reach, and what its listeners are told.**

The listeners of a `SimpleWebSocketServer` are told of the coming and going of connections by their
ids, and the program sends by ids.  So there is a room of which the listeners know, in which ids come
and go, and in which the program speaks; the map of the server, with the send queues of the connections
in it, behaves as that room.

Main definitions:

* `SimpleWeb.SimpleWebSocketServer.Hub.Called` — what the callbacks of a handler do;
* `SimpleWeb.Spoken`, `SimpleWeb.Standing.Next` — the calls of a connection, and what a step adds;
* `SimpleWeb.SimpleWebSocketServer.Hub.Inv` — the invariant;
* `SimpleWeb.SimpleWebSocketServer.Tale` — what the listeners may be told of a connection.

Main results:

* `SimpleWeb.SimpleWebSocketServer.Hub.Inv.act` — the step lemma;
* `SimpleWeb.SimpleWebSocketServer.listeners_know` — **the listeners know whom a message reaches**;
* `SimpleWeb.SimpleWebSocketServer.listeners_are_told` — **what they are told of each connection**.
-/

import SimpleWeb.Hub

set_option relaxedAutoImplicit false
set_option autoImplicit false

namespace SimpleWeb

namespace SimpleWebSocketServer

namespace Hub

variable {ι : Type}

/-! ### What callbacks do -/

variable {setup : Setup} {h h' h'' : Hub ι} {connection : ι} {es es' : List Event}

/-- What is found after an entry has been taken out was there before. -/
theorem lookup_of_lookup_erase {table : AList (fun _ : Bytes => ι)} {k k' : Bytes} {c : ι}
    (hlookup : (table.erase k).lookup k' = some c) : table.lookup k' = some c := by
  by_cases hk : k' = k
  · rw [hk, AList.lookup_erase] at hlookup
    cases hlookup
  · rwa [AList.lookup_erase_ne hk] at hlookup

/-- What is seen of a callback. -/
def seen (setup : Setup) (connection : ι) (id : Bytes) : Event → List (Visible ι)
  | .onOpen => [.listener connection (.connectionOpened id)]
  | .onMessage m =>
      let calls : List (Unit × Received Bytes) := onMessageCallback setup.string [()] id m []
      calls.map fun r => .received connection r.2
  | .onClose status reason => [.listener connection (.connectionClosed id status reason)]
  | .onError ec => [.listener connection (.connectionError id (setup.errorMessage ec))]
  | _ => []

/-- Whether a connection is in the set, after some callbacks. -/
def memberAfter (member : Prop) (es : List Event) : Prop :=
  es.foldl (fun member e => match e with
    | .onOpen => True
    | .onClose _ _ => False
    | .onError _ => False
    | _ => member) member

/-- What some callbacks of a connection do. -/
structure Called (setup : Setup) (connection : ι) (es : List Event) (h h' : Hub ι) : Prop where
  stage : h'.stage = h.stage
  stopped : h'.stopped = h.stopped
  endpoint : h'.state.endpoint = h.state.endpoint
  history : h'.history =
    h.history ++ es.flatMap (seen setup connection (h.state.getConnectionString connection))
  entry : ∀ id c, h'.state.connectionMap.lookup id = some c →
    h.state.connectionMap.lookup id = some c ∨ c = connection ∧ .onOpen ∈ es
  others : ∀ c, c ≠ connection → (c ∈ h'.state.connections ↔ c ∈ h.state.connections)
  member : connection ∈ h'.state.connections ↔ memberAfter (connection ∈ h.state.connections) es
  keyed : Room.Keyed h.state.getConnectionString h.state.connectionMap →
    Room.Keyed h.state.getConnectionString h'.state.connectionMap
  room : (.onOpen ∈ es → h.messagesTo connection = []) →
    Room.ofTable h.state.connectionMap h.messagesTo = h.room →
    Room.ofTable h'.state.connectionMap h.messagesTo = h'.room
  faithful : (∀ e ∈ es, ¬ e.Ordinary → ∀ other ∈ h.state.connections, other ≠ connection →
      h.state.endpoint other ≠ h.state.endpoint connection) →
    h.state.Faithful → h'.state.Faithful

theorem Called.id (hc : Called setup connection es h h') (c : ι) :
    h'.state.getConnectionString c = h.state.getConnectionString c := by
  rw [State.getConnectionString, State.getConnectionString, hc.endpoint]

theorem Called.messagesTo (hc : Called setup connection es h h') (c : ι) :
    h'.messagesTo c = h.messagesTo c := by
  rw [Hub.messagesTo, Hub.messagesTo, hc.stage]

theorem room_see (h : Hub ι) (v : Visible ι) {e : Room.Event Bytes Bytes}
    (hv : v.roomEvent? = some e) : (h.see v).room = h.room.act e := by
  rw [room, room, see, List.filterMap_append, ← Room.after_append_singleton]
  simp [hv]

/-- What is no event of the room does not change it. -/
theorem room_append (h : Hub ι) {vs : List (Visible ι)} (hvs : ∀ v ∈ vs, v.roomEvent? = none) :
    ({ h with history := h.history ++ vs } : Hub ι).room = h.room := by
  simp only [room]
  rw [List.filterMap_append, List.filterMap_eq_nil_iff.2 hvs, List.append_nil]

theorem Called.refl (h : Hub ι) : Called setup connection [] h h where
  stage := rfl
  stopped := rfl
  endpoint := rfl
  history := (List.append_nil _).symm
  entry _ _ hentry := Or.inl hentry
  others _ _ := Iff.rfl
  member := Iff.rfl
  keyed hkeyed := hkeyed
  room _ hroom := hroom
  faithful _ hfaithful := hfaithful

/-- Some callbacks, and then some more. -/
theorem Called.trans (hc : Called setup connection es h h')
    (hc' : Called setup connection es' h' h'') : Called setup connection (es ++ es') h h'' where
  stage := hc'.stage.trans hc.stage
  stopped := hc'.stopped.trans hc.stopped
  endpoint := hc'.endpoint.trans hc.endpoint
  history := by
    rw [hc'.history, hc.history, hc.id, List.flatMap_append, List.append_assoc]
  entry := by
    intro id c hentry
    rcases hc'.entry id c hentry with hentry | ⟨hc', hopen⟩
    · exact (hc.entry id c hentry).imp_right fun h => ⟨h.1, List.mem_append_left _ h.2⟩
    · exact Or.inr ⟨hc', List.mem_append_right _ hopen⟩
  others c hne := (hc'.others c hne).trans (hc.others c hne)
  member := by
    rw [hc'.member, memberAfter, memberAfter, List.foldl_append, propext hc.member, memberAfter]
  keyed := by
    intro hkeyed
    have hkeyed' := hc'.keyed ((hc.keyed hkeyed).congr fun _ c _ => hc.id c)
    exact hkeyed'.congr fun _ c _ => (hc.id c).symm
  room := by
    intro hsilent hroom
    have hmessages : h'.messagesTo = h.messagesTo := funext hc.messagesTo
    have hroom' := hc.room (fun hopen => hsilent (List.mem_append_left _ hopen)) hroom
    rw [← hmessages] at hroom' ⊢
    refine hc'.room (fun hopen => ?_) hroom'
    rw [hmessages]
    exact hsilent (List.mem_append_right _ hopen)
  faithful := by
    intro hdistinct hfaithful
    refine hc'.faithful ?_ (hc.faithful (fun e he => hdistinct e (List.mem_append_left _ he))
      hfaithful)
    intro e he hordinary other hother hne
    rw [hc.endpoint]
    exact hdistinct e (List.mem_append_right _ he) hordinary other ((hc.others other hne).1 hother)
      hne

variable [DecidableEq ι]

/-- A connection is told of as closed or as failed. -/
theorem called_leaves {e : Event} {call : ListenerCall} {s : State ι}
    (hseen : seen setup connection (h.state.getConnectionString connection) e =
      [.listener connection call])
    (hcall : (Visible.listener connection call).roomEvent? =
      some (.leaves (h.state.getConnectionString connection)))
    (hmember : ∀ p, ¬ memberAfter p [e]) (hordinary : ¬ e.Ordinary)
    (hendpoint : s.endpoint = h.state.endpoint)
    (hconnections : s.connections = h.state.connections.erase connection)
    (hmap : s.connectionMap =
      h.state.connectionMap.erase (h.state.getConnectionString connection))
    (hfaithful : (∀ other ∈ h.state.connections, other ≠ connection →
      h.state.endpoint other ≠ h.state.endpoint connection) → h.state.Faithful → s.Faithful) :
    Called setup connection [e] h ({ h with state := s }.see (.listener connection call)) where
  stage := rfl
  stopped := rfl
  endpoint := hendpoint
  history := by simp [see, hseen]
  entry := by
    intro id c hentry
    refine Or.inl (lookup_of_lookup_erase (k := h.state.getConnectionString connection) ?_)
    rw [← hmap]
    exact hentry
  others := by
    intro c hc
    show c ∈ s.connections ↔ _
    rw [hconnections]
    exact Finset.mem_erase.trans (and_iff_right hc)
  member := by
    show connection ∈ s.connections ↔ _
    rw [hconnections]
    exact iff_of_false (Finset.notMem_erase _ _) (hmember _)
  keyed := by
    intro hkeyed
    show Room.Keyed _ s.connectionMap
    rw [hmap]
    exact hkeyed.erase _
  room := by
    intro _ hroom
    refine Eq.trans ?_ (room_see _ _ hcall).symm
    show Room.ofTable s.connectionMap _ = _
    rw [hmap]
    exact (Room.ofTable_erase _).trans (congrArg (Room.act · _) hroom)
  faithful hdistinct := hfaithful (hdistinct e (List.mem_singleton_self _) hordinary)

/-- **What one callback does.** -/
theorem called_callback (h : Hub ι) (e : Event) :
    Called setup connection [e] h (callback setup connection h e) := by
  cases e with
  | onOpen =>
      refine ⟨rfl, rfl, rfl, rfl, ?_, ?_, ?_, ?_, ?_, ?_⟩
      · intro id c hentry
        have hlookup : (h.state.connectionMap.insert (h.state.getConnectionString connection)
            connection).lookup id = some c := hentry
        by_cases hid : id = h.state.getConnectionString connection
        · rw [hid, AList.lookup_insert] at hlookup
          exact Or.inr ⟨(Option.some.inj hlookup).symm, List.mem_singleton_self _⟩
        · rw [AList.lookup_insert_ne hid] at hlookup
          exact Or.inl hlookup
      · intro c hc
        exact Finset.mem_insert.trans (or_iff_right hc)
      · exact iff_of_true (Finset.mem_insert_self _ _) trivial
      · intro hkeyed
        exact hkeyed.insert connection
      · intro hsilent hroom
        refine Eq.trans ?_ (room_see _ _ rfl).symm
        refine (Room.ofTable_insert _ (hsilent (List.mem_singleton_self _))).trans ?_
        exact congrArg (Room.act · _) hroom
      · intro hdistinct hfaithful
        have hopen := @faithful_act_iff ι _ h.state hfaithful (.connectionOpen connection) trivial
        exact hopen.2 (hdistinct _ (List.mem_singleton_self _) fun h => h)
  | onMessage m =>
      refine ⟨rfl, rfl, rfl, by simp [callback, seen], fun _ _ => Or.inl, fun _ _ => Iff.rfl,
        Iff.rfl, fun hkeyed => hkeyed, ?_, fun _ hfaithful => hfaithful⟩
      intro _ hroom
      refine hroom.trans (room_append h ?_).symm
      intro v hv
      obtain ⟨r, -, rfl⟩ := List.mem_map.1 hv
      rfl
  | onClose status reason =>
      refine called_leaves rfl rfl (fun _ h => h) (fun h => h) rfl rfl rfl ?_
      intro hdistinct hfaithful
      exact (@faithful_act_iff ι _ h.state hfaithful (.connectionClose connection status reason)
        trivial).2 hdistinct
  | onError ec =>
      refine called_leaves rfl rfl (fun _ h => h) (fun h => h) rfl rfl rfl ?_
      intro hdistinct hfaithful
      exact (@faithful_act_iff ι _ h.state hfaithful
        (.connectionError connection (setup.errorMessage ec)) trivial).2 hdistinct
  | onPing | onPong | enqueue | frame =>
      exact ⟨rfl, rfl, rfl, (List.append_nil _).symm, fun _ _ => Or.inl, fun _ _ => Iff.rfl,
        Iff.rfl, fun hkeyed => hkeyed, fun _ hroom => hroom, fun _ hfaithful => hfaithful⟩

/-- **What the callbacks of a handler do.** -/
theorem called_foldl (es : List Event) (h : Hub ι) :
    Called setup connection es h (es.foldl (callback setup connection) h) := by
  induction es generalizing h with
  | nil => exact .refl h
  | cons e es ih =>
      rw [List.foldl_cons]
      exact (called_callback h e).trans (ih _)

end Hub

end SimpleWebSocketServer

/-! ### What a connection calls -/

/-- The calls of a connection: none, or that it failed; or that it has been opened, those of an open
connection, and perhaps its end. -/
inductive Spoken : List Event → Prop
  | nothing : Spoken []
  | failed (ec : ErrorCode) : Spoken [.onError ec]
  | opened {es : List Event} (hes : ∀ e ∈ es, e.Ordinary) : Spoken (.onOpen :: es)
  | ended {es ending : List Event} (hes : ∀ e ∈ es, e.Ordinary) (hending : Terminal True ending) :
      Spoken (.onOpen :: es ++ ending)

/-- A connection that reads is open. -/
def Standing.Speaks (s : Standing) : Prop :=
  Spoken s.calls ∧ (s.reading = true → ∃ es, (∀ e ∈ es, e.Ordinary) ∧ s.calls = .onOpen :: es)

/-- What a step adds to the calls, when the callbacks for the coming and going are set. -/
structure Standing.Next (s s' : Standing) (new : List Event) : Prop where
  calls : s'.calls = s.calls ++ new
  speaks : s'.Speaks
  first : .onOpen ∈ new → s.calls = []
  member : ∀ p : Prop, (p ↔ IsOpen s.calls) →
    (SimpleWebSocketServer.Hub.memberAfter p new ↔ IsOpen s'.calls)

open SimpleWebSocketServer.Hub in
theorem memberAfter_ordinary {es : List Event} (hes : ∀ e ∈ es, e.Ordinary) (p : Prop) :
    memberAfter p es = p := by
  induction es generalizing p with
  | nil => rfl
  | cons e es ih =>
      have he := hes e List.mem_cons_self
      have hnext : memberAfter p (e :: es) = memberAfter p es := by
        cases e with
        | onMessage | onPing | onPong => rfl
        | onOpen | onClose | onError | enqueue | frame => exact he.elim
      rw [hnext]
      exact ih (fun e' he' => hes e' (List.mem_cons_of_mem _ he')) p

open SimpleWebSocketServer.Hub in
theorem not_memberAfter_terminal {ending : List Event} {big : Prop} (h : Terminal big ending)
    (p : Prop) : ¬ memberAfter p ending := by
  cases h with
  | close | error | tooBig => exact fun h => h

/-- What ends a connection, when the callbacks for it are set. -/
theorem Terminal.filter_eq {ending : List Event} {big : Prop} (h : Terminal big ending)
    {callbacks : Callbacks} (hclose : callbacks.onClose = true) (herror : callbacks.onError = true) :
    ending.filter callbacks.isSet = ending := by
  cases h with
  | close | error | tooBig => simp [Callbacks.isSet, hclose, herror]

theorem Terminal.onOpen_not_mem {ending : List Event} {big : Prop} (h : Terminal big ending) :
    .onOpen ∉ ending := by
  cases h with
  | close | error | tooBig => simp

/-- **The step lemma.** -/
theorem Turn.next {callbacks : Callbacks} (hopen : callbacks.onOpen = true)
    (hclose : callbacks.onClose = true) (herror : callbacks.onError = true) {keeps : Bool}
    {big : Prop} {s s' : Standing} (h : Turn callbacks keeps big s s') (hs : s.Speaks) :
    ∃ new, s.Next s' new := by
  have hfalse : ∀ {p : Prop}, false = true → p := fun h => absurd h Bool.false_ne_true
  cases h with
  | idle => exact ⟨[], (List.append_nil _).symm, hs,
      fun hopen => absurd hopen List.not_mem_nil, fun _ hp => hp⟩
  | handled hreading h =>
      obtain ⟨es, hes, hcalls⟩ := hs.2 hreading
      cases h with
      | @goesOn reading es' hes' =>
          have hboth : ∀ e ∈ es ++ es', e.Ordinary := by
            intro e he
            rcases List.mem_append.1 he with he | he
            · exact hes e he
            · exact hes' e he
          have hcalls' : s.calls ++ es' = .onOpen :: (es ++ es') := by rw [hcalls]; rfl
          refine ⟨es', rfl, ⟨?_, fun _ => ⟨_, hboth, hcalls'⟩⟩, ?_, ?_⟩
          · show Spoken (s.calls ++ es')
            rw [hcalls']
            exact .opened hboth
          · intro hmem
            exact absurd rfl (hes' _ hmem).ne_onOpen
          · intro p hp
            rw [memberAfter_ordinary hes', hp]
            exact (isOpen_ordinary hes').symm
      | @ends ending hending =>
          have htrue : Terminal True ending := hending.mono fun _ => trivial
          have hfilter := hending.filter_eq hclose herror
          refine ⟨ending, by rw [hfilter], ⟨?_, hfalse⟩, ?_, ?_⟩
          · show Spoken (s.calls ++ ending.filter callbacks.isSet)
            rw [hfilter, hcalls]
            exact .ended hes htrue
          · intro hmem
            exact absurd hmem hending.onOpen_not_mem
          · intro p _
            rw [hfilter]
            exact iff_of_false (not_memberAfter_terminal hending p) (not_isOpen_terminal hending)
  | opens hs' =>
      have hfilter : [Event.onOpen].filter callbacks.isSet = [.onOpen] := by
        simp [Callbacks.isSet, hopen]
      refine ⟨[.onOpen], by rw [hfilter, hs']; rfl, ?_, fun _ => by rw [hs'], ?_⟩
      · rw [hfilter]
        have hnone : ∀ e ∈ ([] : List Event), e.Ordinary := List.forall_mem_nil _
        exact ⟨.opened hnone, fun _ => ⟨[], hnone, rfl⟩⟩
      · intro p _
        rw [hfilter]
        exact iff_of_true trivial ⟨List.mem_singleton_self _, by simp [Event.terminal?]⟩
  | @fails ec hs' =>
      have hfilter : [Event.onError ec].filter callbacks.isSet = [.onError ec] := by
        simp [Callbacks.isSet, herror]
      refine ⟨[.onError ec], by rw [hfilter, hs']; rfl, ?_, fun _ => by rw [hs'], ?_⟩
      · rw [hfilter]
        exact ⟨.failed ec, hfalse⟩
      · intro p _
        rw [hfilter]
        have hend : Terminal False [.onError ec] := .error ec
        exact iff_of_false (fun h => h) (@not_isOpen_terminal [] _ _ hend)

/-- The callbacks for the coming and going are set. -/
def Server.Stage.Listens (s : Server.Stage) : Prop :=
  s.callbacks.onOpen = true ∧ s.callbacks.onClose = true ∧ s.callbacks.onError = true

namespace SimpleWebSocketServer

variable {setup : Setup}

/-- The handlers that run on a connection that has been upgraded. -/
inductive IsHandler : Server.Stage.Act → Prop
  | answerWritten (lock : Bool) (ec : Option ErrorCode) : IsHandler (.answerWritten lock ec)
  | complete (lock : Bool) (k : Completion UInt8 ErrorCode) : IsHandler (.act (.complete lock k))

namespace Setup

theorem listens_start (request : RequestMessage) : (setup.start request).Listens := by
  cases hanswer : Server.writeHandshake setup.config setup.sha1 setup.beyond setup.order
      setup.endpoints request with
  | none =>
      simp only [start, Server.Stage.start, hanswer]
      exact ⟨rfl, rfl, rfl⟩
  | some a =>
      simp only [start, Server.Stage.start, hanswer]
      obtain ⟨e, he, rfl⟩ := Option.map_eq_some_iff.1 hanswer
      have hmem := List.mem_of_find?_eq_some he
      rw [endpoints, List.mem_singleton] at hmem
      subst hmem
      simp only [Server.Stage.write, Server.Stage.Listens, Server.Stage.callbacks,
        Server.answer_endpoint]
      exact ⟨trivial, trivial, trivial⟩

theorem listens_step {s : Server.Stage} (hs : s.Listens) {a : Server.Stage.Act} (ha : IsHandler a) :
    (setup.step s a).Listens := by
  cases ha with
  | answerWritten lock ec =>
      cases s with
      | handshake | answering | connected | ended => exact hs
  | complete lock k =>
      cases s with
      | handshake | answering | connected | ended => exact hs

/-- **What a handler does to the calls and the messages of a connection.** -/
theorem next_step {s : Server.Stage} (hs : s.Listens) (hspeaks : s.standing.Speaks)
    {a : Server.Stage.Act} (ha : IsHandler a) :
    (∃ new, s.standing.Next (setup.step s a).standing new) ∧
      (setup.step s a).messagesOut = s.messagesOut := by
  obtain ⟨hopen, hclose, herror⟩ := hs
  have hstop : a ≠ .stop true := by cases ha <;> nofun
  have hsend : ∀ outMessage b, a ≠ .act (.send outMessage b) := by cases ha <;> nofun
  have hturn := @Server.Stage.turn_act setup.config setup.sha1 setup.beyond setup.order
    setup.endpoints s a hstop
  exact ⟨hturn.next hopen hclose herror hspeaks, Server.Stage.messagesOut_act s hsend⟩

end Setup

variable {ι : Type} [DecidableEq ι]

/-- What is seen is about the connection. -/
def Visible.isAbout (connection : ι) : Visible ι → Bool
  | .listener c _ => c == connection
  | .received c _ => c == connection
  | .program _ => false
  | .stop => false

namespace Hub

variable {h : Hub ι}

/-- What the listeners have been told of a connection. -/
def toldOf (h : Hub ι) (connection : ι) : List (Visible ι) :=
  h.history.filter (Visible.isAbout connection)

/-- What a callback makes seen is about its connection. -/
theorem isAbout_seen {connection : ι} {id : Bytes} {e : Event} {v : Visible ι}
    (hv : v ∈ seen setup connection id e) (c : ι) : v.isAbout c = (connection == c) := by
  cases e with
  | onOpen | onClose | onError =>
      rw [List.mem_singleton.1 hv]
      rfl
  | onMessage m =>
      obtain ⟨r, -, rfl⟩ := List.mem_map.1 hv
      rfl
  | onPing | onPong | enqueue | frame => cases hv

theorem filter_seen (connection c : ι) (id : Bytes) (es : List Event) :
    (es.flatMap (seen setup connection id)).filter (Visible.isAbout c) =
      if connection = c then es.flatMap (seen setup connection id) else [] := by
  split
  · next heq =>
      rw [List.filter_eq_self]
      intro v hv
      obtain ⟨e, -, hv⟩ := List.mem_flatMap.1 hv
      rw [isAbout_seen hv, heq, beq_self_eq_true]
  · next hne =>
      rw [List.filter_eq_nil_iff]
      intro v hv
      obtain ⟨e, -, hv⟩ := List.mem_flatMap.1 hv
      rw [isAbout_seen hv]
      simpa using hne

/-- What has been called by a connection. -/
def callsOf (h : Hub ι) (connection : ι) : List Event :=
  ((h.stage connection).map fun s => s.standing.calls).getD []

/-- **The invariant.** -/
structure Inv (setup : Setup) (h : Hub ι) : Prop where
  listens : ∀ c s, h.stage c = some s → s.Listens
  speaks : ∀ c s, h.stage c = some s → s.standing.Speaks
  silent : ∀ c, h.callsOf c = [] → h.messagesTo c = []
  entry : ∀ id c, h.state.connectionMap.lookup id = some c → h.callsOf c ≠ []
  keyed : Room.Keyed h.state.getConnectionString h.state.connectionMap
  room : Room.ofTable h.state.connectionMap h.messagesTo = h.room
  member : ∀ c, c ∈ h.state.connections ↔ h.stopped = false ∧ IsOpen (h.callsOf c)
  told : ∀ c, h.toldOf c = (h.callsOf c).flatMap (seen setup c (h.state.getConnectionString c))

theorem inv_init : Inv setup ({} : Hub ι) where
  listens _ _ hs := nomatch hs
  speaks _ _ hs := nomatch hs
  silent _ _ := rfl
  entry _ _ hentry := by simp at hentry
  keyed := Room.Keyed.empty
  room := Room.ofTable_empty
  member c := by simp [callsOf, IsOpen]
  told _ := rfl

/-- What holds of the connections holds of them when one of them has gone on. -/
theorem forall_update {P : Server.Stage → Prop} (hold : ∀ c s, h.stage c = some s → P s) {c : ι}
    {s : Server.Stage} (hnew : P s) :
    ∀ c' s', Function.update h.stage c (some s) c' = some s' → P s' := by
  intro c' s' hs'
  by_cases hc : c' = c
  · rw [hc, Function.update_self] at hs'
    rwa [← Option.some.inj hs']
  · rw [Function.update_of_ne hc] at hs'
    exact hold c' s' hs'

theorem messagesTo_advance (c c' : ι) (a : Server.Stage.Act) :
    (h.advance setup c a).messagesTo c' =
      if c' = c then ((h.stage c).map fun s => (setup.step s a).messagesOut).getD []
      else h.messagesTo c' := by
  by_cases hc : c' = c
  · subst hc
    simp only [messagesTo, advance, Function.update_self, Option.map_map]
    rfl
  · simp [messagesTo, advance, hc]

/-- A connection that is not there does nothing. -/
theorem perform_of_none {c : ι} (hc : h.stage c = none) (a : Server.Stage.Act) :
    h.perform setup c a = h := by
  have hadvance : h.advance setup c a = h := by
    have hupdate : Function.update h.stage c none = h.stage := by
      rw [← hc]
      exact Function.update_eq_self c h.stage
    rw [advance, hc, Option.map_none, hupdate]
  rw [perform, newCalls, hc, hadvance]
  rfl

/-- **What a handler does.** -/
theorem called_perform (hinv : Inv setup h) {c : ι} {s : Server.Stage} (hc : h.stage c = some s)
    {a : Server.Stage.Act} (ha : IsHandler a) :
    ∃ new, s.standing.Next (setup.step s a).standing new ∧ h.newCalls setup c a = new ∧
      (∀ c', (h.advance setup c a).messagesTo c' = h.messagesTo c') ∧
      Called setup c new (h.advance setup c a) (h.perform setup c a) := by
  obtain ⟨⟨new, hnext⟩, hmessages⟩ := setup.next_step (hinv.listens c s hc) (hinv.speaks c s hc) ha
  have hnew : h.newCalls setup c a = new := by
    simp only [newCalls, hc, hnext.calls, List.drop_left]
  refine ⟨new, hnext, hnew, ?_, ?_⟩
  · intro c'
    rw [messagesTo_advance]
    split
    · next heq =>
        subst heq
        simp [messagesTo, hc, hmessages]
    · rfl
  · rw [perform, hnew]
    exact called_foldl new _

/-- **What a handler preserves.** -/
theorem Inv.perform (hinv : Inv setup h) (hrunning : h.stopped = false) (c : ι)
    {a : Server.Stage.Act} (ha : IsHandler a) : Inv setup (h.perform setup c a) := by
  cases hc : h.stage c with
  | none => rwa [perform_of_none hc]
  | some s =>
      obtain ⟨new, hnext, -, hmessages, hcalled⟩ := called_perform hinv hc ha
      have hstage : (h.perform setup c a).stage =
          Function.update h.stage c (some (setup.step s a)) := by
        rw [hcalled.stage, advance, hc, Option.map_some]
      have hcalls : ∀ c', (h.perform setup c a).callsOf c' =
          h.callsOf c' ++ if c' = c then new else [] := by
        intro c'
        by_cases hcc : c' = c
        · subst hcc
          simp [callsOf, hstage, hc, hnext.calls]
        · simp [callsOf, hstage, hcc]
      have hmessages' : ∀ c', (h.perform setup c a).messagesTo c' = h.messagesTo c' :=
        fun c' => (hcalled.messagesTo c').trans (hmessages c')
      have hid : ∀ c', (h.perform setup c a).state.getConnectionString c' =
          h.state.getConnectionString c' := hcalled.id
      have hcallsOf : h.callsOf c = s.standing.calls := by simp [callsOf, hc]
      have hfirst : .onOpen ∈ new → h.messagesTo c = [] := by
        intro hopen
        refine hinv.silent c ?_
        rw [hcallsOf]
        exact hnext.first hopen
      have hlistens := forall_update hinv.listens (c := c)
        (setup.listens_step (hinv.listens c s hc) ha)
      have hspeaks := @forall_update ι _ h (fun s => s.standing.Speaks) hinv.speaks c _ hnext.speaks
      rw [← hstage] at hlistens hspeaks
      refine ⟨hlistens, hspeaks, ?_, ?_, ?_, ?_, ?_, ?_⟩
      · intro c' hnone
        rw [hmessages']
        rw [hcalls] at hnone
        exact hinv.silent c' (List.append_eq_nil_iff.1 hnone).1
      · intro id c' hentry hnone
        rw [hcalls] at hnone
        obtain ⟨hold, hnone⟩ := List.append_eq_nil_iff.1 hnone
        rcases hcalled.entry id c' hentry with hentry | ⟨rfl, hopen⟩
        · exact hinv.entry id c' hentry hold
        · rw [if_pos rfl] at hnone
          rw [hnone] at hopen
          cases hopen
      · exact (hcalled.keyed hinv.keyed).congr fun _ c' _ => hid c'
      · have hadvance : (h.advance setup c a).messagesTo = h.messagesTo := funext hmessages
        have hroom := hcalled.room
        rw [hadvance] at hroom
        rw [funext hmessages']
        exact hroom hfirst hinv.room
      · intro c'
        rw [hcalled.stopped, hcalls]
        by_cases hcc : c' = c
        · subst hcc
          rw [if_pos rfl, hcalled.member]
          have hmember := hnext.member (c' ∈ h.state.connections) ?_
          · rw [hcallsOf, ← hnext.calls]
            rw [show (c' ∈ (h.advance setup c' a).state.connections) = (c' ∈ h.state.connections) from rfl,
              hmember]
            exact (and_iff_right hrunning).symm
          · rw [hinv.member, hcallsOf]
            exact and_iff_right hrunning
        · rw [if_neg hcc, List.append_nil, hcalled.others c' hcc]
          exact hinv.member c'
      · intro c'
        rw [hid, hcalls, List.flatMap_append, ← hinv.told, toldOf, hcalled.history,
          List.filter_append, filter_seen]
        by_cases hcc : c' = c
        · subst hcc
          rw [if_pos rfl, if_pos rfl]
          rfl
        · have hcc' : c ≠ c' := fun h => hcc h.symm
          rw [if_neg hcc, if_neg hcc']
          rfl

/-! #### Upgrades, calls of the program, and the stop -/

/-- A connection is made. -/
theorem Inv.onHTTPUpgrade (hinv : Inv setup h) {c : ι} (hc : h.stage c = none)
    (request : RequestMessage) (remoteEndpoint : Option Endpoint) :
    Inv setup (h.onHTTPUpgrade setup c request remoteEndpoint) := by
  have hnothing : h.callsOf c = [] := by simp [callsOf, hc]
  have hstart : (setup.start request).standing = ⟨false, false, []⟩ :=
    Server.Stage.standing_start (some request)
  have hquiet : (setup.start request).messagesOut = [] := Server.Stage.messagesOut_write _
  have hcalls : ∀ c', (h.onHTTPUpgrade setup c request remoteEndpoint).callsOf c' = h.callsOf c' := by
    intro c'
    by_cases hcc : c' = c
    · subst hcc
      simp [callsOf, Hub.onHTTPUpgrade, hc, hstart]
    · simp [callsOf, Hub.onHTTPUpgrade, hcc]
  have hmessages : (h.onHTTPUpgrade setup c request remoteEndpoint).messagesTo = h.messagesTo := by
    funext c'
    by_cases hcc : c' = c
    · subst hcc
      simp [messagesTo, Hub.onHTTPUpgrade, hc, hquiet]
    · simp [messagesTo, Hub.onHTTPUpgrade, hcc]
  have hid : ∀ c', c' ≠ c →
      (h.onHTTPUpgrade setup c request remoteEndpoint).state.getConnectionString c' =
        h.state.getConnectionString c' := by
    intro c' hcc
    cases remoteEndpoint with
    | none => rfl
    | some endpoint =>
        simp [Hub.onHTTPUpgrade, State.writeHandshake, State.getConnectionString, hcc]
  have hmap : (h.onHTTPUpgrade setup c request remoteEndpoint).state.connectionMap =
      h.state.connectionMap := by cases remoteEndpoint <;> rfl
  have hset : (h.onHTTPUpgrade setup c request remoteEndpoint).state.connections =
      h.state.connections := by cases remoteEndpoint <;> rfl
  have hspeaks : (setup.start request).standing.Speaks := by
    rw [hstart]
    exact ⟨.nothing, fun hreading => absurd hreading Bool.false_ne_true⟩
  refine ⟨forall_update hinv.listens (setup.listens_start request),
    @forall_update ι _ h (fun s => s.standing.Speaks) hinv.speaks c _ hspeaks, ?_, ?_, ?_, ?_, ?_, ?_⟩
  · intro c' hnone
    rw [hmessages]
    rw [hcalls] at hnone
    exact hinv.silent c' hnone
  · intro id c' hentry
    rw [hmap] at hentry
    rw [hcalls]
    exact hinv.entry id c' hentry
  · rw [hmap]
    refine hinv.keyed.congr ?_
    intro id c' hentry
    refine hid c' ?_
    rintro rfl
    exact hinv.entry id c' hentry hnothing
  · rw [hmap, hmessages]
    exact hinv.room
  · intro c'
    rw [hset, hcalls]
    exact hinv.member c'
  · intro c'
    rw [hcalls]
    by_cases hcc : c' = c
    · subst hcc
      rw [hnothing]
      exact (hinv.told c').trans (by rw [hnothing]; rfl)
    · rw [hid c' hcc]
      exact hinv.told c'

/-- The steps of different connections do not touch each other. -/
theorem advanceAll_eq {connections : List ι} (hnodup : connections.Nodup) (a : Server.Stage.Act) :
    h.advanceAll setup connections a =
      { h with stage := fun c =>
          if c ∈ connections then (h.stage c).map (setup.step · a) else h.stage c } := by
  induction connections generalizing h with
  | nil => simp [advanceAll]
  | cons c connections ih =>
      obtain ⟨hc, hnodup⟩ := List.nodup_cons.1 hnodup
      rw [advanceAll, List.foldl_cons]
      refine (ih hnodup).trans ?_
      simp only [advance]
      congr 1
      funext c'
      by_cases hcc : c' = c
      · subst hcc
        simp [hc]
      · simp [hcc]

/-- What the program does to connections does not make them call anything. -/
theorem Inv.restage (hinv : Inv setup h) {stage : ι → Option Server.Stage} (call : Call)
    (hstage : ∀ c, stage c = h.stage c ∨ ∃ s s', h.stage c = some s ∧ stage c = some s' ∧
      s'.standing = s.standing ∧ s'.callbacks = s.callbacks)
    (hsilent : ∀ c, h.callsOf c = [] → ({ h with stage := stage } : Hub ι).messagesTo c = [])
    (hroom : Room.ofTable h.state.connectionMap ({ h with stage := stage } : Hub ι).messagesTo =
      (h.see (.program call)).room) :
    Inv setup (({ h with stage := stage } : Hub ι).see (.program call)) := by
  have hcalls : ∀ c, (({ h with stage := stage } : Hub ι).see (.program call)).callsOf c =
      h.callsOf c := by
    intro c
    rcases hstage c with heq | ⟨s, s', hs, hs', hstanding, -⟩
    · simp [callsOf, see, heq]
    · simp [callsOf, see, hs, hs', hstanding]
  refine ⟨?_, ?_, ?_, ?_, hinv.keyed, hroom, ?_, ?_⟩
  · intro c s hs
    rcases hstage c with heq | ⟨s₀, s', hs₀, hs', -, hcallbacks⟩
    · exact hinv.listens c s (heq.symm.trans hs)
    · obtain rfl : s' = s := Option.some.inj (hs'.symm.trans hs)
      have hlistens := hinv.listens c s₀ hs₀
      rwa [Server.Stage.Listens, ← hcallbacks] at hlistens
  · intro c s hs
    rcases hstage c with heq | ⟨s₀, s', hs₀, hs', hstanding, -⟩
    · exact hinv.speaks c s (heq.symm.trans hs)
    · obtain rfl : s' = s := Option.some.inj (hs'.symm.trans hs)
      rw [hstanding]
      exact hinv.speaks c s₀ hs₀
  · intro c hnone
    rw [hcalls] at hnone
    exact hsilent c hnone
  · intro id c hentry
    rw [hcalls]
    exact hinv.entry id c hentry
  · intro c
    rw [hcalls]
    exact hinv.member c
  · intro c
    rw [hcalls]
    refine Eq.trans ?_ (hinv.told c)
    simp [toldOf, see, List.filter_append, Visible.isAbout]

/-- What the program does to a connection is no callback. -/
theorem standing_step_program (s : Server.Stage) {a : Server.Act}
    (ha : ∀ lock k, a ≠ .complete lock k) :
    (setup.step s (.act a)).standing = s.standing ∧
      (setup.step s (.act a)).callbacks = s.callbacks := by
  cases s with
  | connected endpoint c =>
      cases a with
      | complete lock k => exact absurd rfl (ha lock k)
      | send outMessage b => exact ⟨Server.Conn.standing_send c outMessage b, rfl⟩
      | sendClose status reason => exact ⟨Server.Conn.standing_sendClose c status reason, rfl⟩
  | handshake | answering | ended => exact ⟨rfl, rfl⟩

/-- **What the program does to some of the connections in the map**: `put` is what it puts on their
send queues. -/
theorem Inv.advanceAll (hinv : Inv setup h) (put : List Bytes) {connections : List ι} (hnodup : connections.Nodup)
    (hentry : ∀ c ∈ connections, ∃ id, h.state.connectionMap.lookup id = some c) {a : Server.Act}
    (ha : ∀ lock k, a ≠ .complete lock k) (call : Call)
    (hput : ∀ s : Server.Stage, s.standing.calls ≠ [] →
      (setup.step s (.act a)).messagesOut = s.messagesOut ++ put)
    (hroom : ∀ mailbox : ι → List Bytes,
      (∀ c, mailbox c = h.messagesTo c ++ if c ∈ connections then put else []) →
      Room.ofTable h.state.connectionMap mailbox = (h.see (.program call)).room) :
    Inv setup ((h.advanceAll setup connections (.act a)).see (.program call)) := by
  have hspoken : ∀ c ∈ connections, ∃ s, h.stage c = some s ∧ s.standing.calls ≠ [] := by
    intro c hc
    obtain ⟨id, hid⟩ := hentry c hc
    have hcalls := hinv.entry id c hid
    cases hs : h.stage c with
    | none => exact absurd (by simp [callsOf, hs]) hcalls
    | some s => exact ⟨s, rfl, by simpa [callsOf, hs] using hcalls⟩
  have hmessages : ∀ c, ({ h with stage := fun c =>
      if c ∈ connections then (h.stage c).map (setup.step · (.act a)) else h.stage c } : Hub
        ι).messagesTo c = h.messagesTo c ++ if c ∈ connections then put else [] := by
    intro c
    by_cases hc : c ∈ connections
    · obtain ⟨s, hs, hcalls⟩ := hspoken c hc
      simp [messagesTo, hc, hs, hput s hcalls]
    · simp [messagesTo, hc]
  rw [advanceAll_eq hnodup]
  refine hinv.restage call ?_ ?_ (hroom _ hmessages)
  · intro c
    by_cases hc : c ∈ connections
    · obtain ⟨s, hs, -⟩ := hspoken c hc
      exact Or.inr ⟨s, setup.step s (.act a), hs, by simp [hc, hs], standing_step_program s ha⟩
    · exact Or.inl (by simp [hc])
  · intro c hnone
    rw [hmessages, hinv.silent c hnone, List.nil_append, if_neg]
    intro hc
    obtain ⟨id, hid⟩ := hentry c hc
    exact hinv.entry id c hid hnone

/-- **A message that is sent to some of the connections in the map.** -/
theorem Inv.sendAll (hinv : Inv setup h) {connections : List ι} (hnodup : connections.Nodup)
    (hentry : ∀ c ∈ connections, ∃ id, h.state.connectionMap.lookup id = some c)
    {hears : Bytes → Bool}
    (hhears : ∀ id c, h.state.connectionMap.lookup id = some c →
      (c ∈ connections ↔ hears id = true))
    {call : Call} {outMessage : Bytes} {b : UInt8}
    (hcall : call.tells? = some (.tells hears (Server.outData outMessage b)))
    (hb : isMessageFrame (Server.outData outMessage b) = true) :
    Inv setup ((h.sendAll setup connections outMessage b).see (.program call)) := by
  refine hinv.advanceAll [Server.outData outMessage b] hnodup hentry (by simp) call ?_ ?_
  · intro s hs
    refine (Server.Stage.messagesOut_send hs outMessage b).trans ?_
    rw [List.filter_cons_of_pos hb, List.filter_nil]
  · intro mailbox hmailbox
    rw [room_see h (.program call) hcall, ← hinv.room]
    refine Room.ofTable_tells ?_
    intro id c hlookup
    rw [hmailbox]
    simp only [hhears id c hlookup]

/-- The connections under an id. -/
theorem connectionOf_entry (hinv : Inv setup h) (id : Bytes) :
    (h.connectionOf id).Nodup ∧
    (∀ c ∈ h.connectionOf id, ∃ id, h.state.connectionMap.lookup id = some c) ∧
    ∀ id' c, h.state.connectionMap.lookup id' = some c →
      (c ∈ h.connectionOf id ↔ (id' == id) = true) := by
  refine ⟨?_, ?_, ?_⟩
  · rw [connectionOf]
    cases h.state.connectionMap.lookup id <;> simp
  · intro c hc
    exact ⟨id, Option.mem_toList.1 hc⟩
  · intro id' c hlookup
    rw [connectionOf, Option.mem_toList, beq_iff_eq]
    constructor
    · intro hid
      rw [← hinv.keyed id' c hlookup, hinv.keyed id c hid]
    · rintro rfl
      exact hlookup

/-- **What the program calls.** -/
theorem Inv.call (hinv : Inv setup h) (call : Call) :
    Inv setup ((h.call setup call).see (.program call)) := by
  have hentries : ∀ hears : Bytes → Bool,
      (Room.entriesOf h.state.connectionMap hears).Nodup ∧
      (∀ c ∈ Room.entriesOf h.state.connectionMap hears,
        ∃ id, h.state.connectionMap.lookup id = some c) ∧
      ∀ id c, h.state.connectionMap.lookup id = some c →
        (c ∈ Room.entriesOf h.state.connectionMap hears ↔ hears id = true) :=
    fun hears => ⟨hinv.keyed.nodup_entriesOf hears,
      fun c hc => Room.exists_lookup_of_mem_entriesOf hc, fun id c => hinv.keyed.mem_entriesOf⟩
  have hall : h.state.send = Room.entriesOf h.state.connectionMap fun _ => true := by
    rw [State.send, Room.entriesOf, List.filter_true]
  cases call with
  | send message =>
      obtain ⟨hnodup, hentry, hhears⟩ := hentries fun _ => true
      rw [← hall] at hnodup hentry hhears
      exact hinv.sendAll hnodup hentry hhears rfl rfl
  | sendData data =>
      obtain ⟨hnodup, hentry, hhears⟩ := hentries fun _ => true
      rw [← hall] at hnodup hentry hhears
      exact hinv.sendAll hnodup hentry hhears rfl rfl
  | sendTo message id =>
      obtain ⟨hnodup, hentry, hhears⟩ := connectionOf_entry hinv id
      exact hinv.sendAll hnodup hentry hhears rfl rfl
  | sendDataTo data id =>
      obtain ⟨hnodup, hentry, hhears⟩ := connectionOf_entry hinv id
      exact hinv.sendAll hnodup hentry hhears rfl rfl
  | sendExclude message excludeIds =>
      obtain ⟨hnodup, hentry, hhears⟩ := hentries fun id => !excludeIds.contains id
      exact hinv.sendAll hnodup hentry hhears rfl rfl
  | sendDataExclude data excludeIds =>
      obtain ⟨hnodup, hentry, hhears⟩ := hentries fun id => !excludeIds.contains id
      exact hinv.sendAll hnodup hentry hhears rfl rfl
  | closeConnection id code reason =>
      obtain ⟨hnodup, hentry, -⟩ := connectionOf_entry hinv id
      refine hinv.advanceAll [] hnodup hentry (by simp) _ ?_ ?_
      · intro s _
        rw [List.append_nil]
        exact Server.Stage.messagesOut_act s fun _ _ => nofun
      · intro mailbox hmailbox
        obtain rfl : mailbox = h.messagesTo := by
          funext c
          simp [hmailbox]
        refine hinv.room.trans (room_append h ?_).symm
        intro v hv
        rw [List.mem_singleton.1 hv]
        rfl

/-- **The stop.** -/
theorem Inv.stopInternal (hinv : Inv setup h) : Inv setup (h.stopInternal setup) := by
  have hstage : ∀ c s', (h.stopInternal setup).stage c = some s' → ∃ s, h.stage c = some s ∧
      s'.standing = s.standing ∧ s'.callbacks = s.callbacks ∧ s'.messagesOut = s.messagesOut := by
    intro c s' hs'
    by_cases hc : c ∈ h.state.connections
    · simp only [Hub.stopInternal, if_pos hc, Option.map_eq_some_iff] at hs'
      obtain ⟨s, hs, rfl⟩ := hs'
      obtain ⟨hstanding, hcallbacks⟩ := @standing_step_program setup s (.sendClose 1000 _)
        fun _ _ => nofun
      exact ⟨s, hs, hstanding, hcallbacks, Server.Stage.messagesOut_act s fun _ _ => nofun⟩
    · simp only [Hub.stopInternal, if_neg hc] at hs'
      exact ⟨s', hs', rfl, rfl, rfl⟩
  have hnone : ∀ c, (h.stopInternal setup).stage c = none → h.stage c = none := by
    intro c hs'
    by_cases hc : c ∈ h.state.connections
    · simpa [Hub.stopInternal, hc] using hs'
    · simpa [Hub.stopInternal, hc] using hs'
  have hboth : ∀ c, (h.stopInternal setup).callsOf c = h.callsOf c ∧
      (h.stopInternal setup).messagesTo c = h.messagesTo c := by
    intro c
    cases hs' : (h.stopInternal setup).stage c with
    | none => simp [callsOf, messagesTo, hs', hnone c hs']
    | some s' =>
        obtain ⟨s, hs, hstanding, -, hmessages⟩ := hstage c s' hs'
        simp [callsOf, messagesTo, hs', hs, hstanding, hmessages]
  refine ⟨?_, ?_, ?_, ?_, Room.Keyed.empty, ?_, ?_, ?_⟩
  · intro c s' hs'
    obtain ⟨s, hs, -, hcallbacks, -⟩ := hstage c s' hs'
    rw [Server.Stage.Listens, hcallbacks]
    exact hinv.listens c s hs
  · intro c s' hs'
    obtain ⟨s, hs, hstanding, -⟩ := hstage c s' hs'
    rw [hstanding]
    exact hinv.speaks c s hs
  · intro c hcalls
    rw [(hboth c).2]
    rw [(hboth c).1] at hcalls
    exact hinv.silent c hcalls
  · intro id c hentry
    simp [Hub.stopInternal] at hentry
  · refine Eq.trans Room.ofTable_empty ?_
    exact (room_see h .stop rfl).symm
  · intro c
    simp [Hub.stopInternal]
  · intro c
    rw [(hboth c).1]
    refine Eq.trans ?_ (hinv.told c)
    simp [toldOf, Hub.stopInternal, List.filter_append, Visible.isAbout]

/-- **The step lemma.** -/
theorem Inv.act (hinv : Inv setup h) {a : Act ι} (ha : h.Allowed a) :
    Inv setup (h.act setup a) := by
  have hrun : ∀ h', (h.stopped = false → Inv setup h') → Inv setup (h.whileRunning h') := by
    intro h' hinv'
    unfold whileRunning
    split
    · exact hinv
    · next hrunning => exact hinv' (by simpa using hrunning)
  cases a with
  | onHTTPUpgrade connection request remoteEndpoint =>
      exact hrun _ fun _ => hinv.onHTTPUpgrade ha request remoteEndpoint
  | answerWritten connection lock ec =>
      exact hrun _ fun hrunning => hinv.perform hrunning connection (.answerWritten lock ec)
  | readCompleted connection lock k =>
      exact hrun _ fun hrunning => hinv.perform hrunning connection (.complete lock k)
  | call call => exact hinv.call call
  | stopInternal => exact hinv.stopInternal

theorem state_advanceAll (connections : List ι) (a : Server.Stage.Act) :
    (h.advanceAll setup connections a).state = h.state := by
  induction connections generalizing h with
  | nil => rfl
  | cons c connections ih => exact ih.trans rfl

/-- No call of the program changes the map, or the set. -/
theorem state_call (call : Call) : (h.call setup call).state = h.state := by
  cases call <;> exact state_advanceAll _ _

/-- **The map stays faithful**, as long as no two open connections share their address and port. -/
theorem faithful_act (hinv : Inv setup h) (hfaithful : h.state.Faithful) {a : Act ι}
    (ha : h.Allowed a) (hdistinct : h.Distinct setup a) : (h.act setup a).state.Faithful := by
  have hrun : ∀ h' : Hub ι, h'.state.Faithful → (h.whileRunning h').state.Faithful := by
    intro h' hfaithful'
    unfold whileRunning
    split
    · exact hfaithful
    · exact hfaithful'
  have hperform : ∀ c a, IsHandler a → Distinct.separate setup h c a →
      (h.perform setup c a).state.Faithful := by
    intro c a ha hseparate
    cases hc : h.stage c with
    | none => rwa [perform_of_none hc]
    | some s =>
        obtain ⟨new, -, hnew, -, hcalled⟩ := called_perform hinv hc ha
        refine hcalled.faithful ?_ hfaithful
        intro e he hordinary
        exact hseparate ⟨e, by rwa [hnew], hordinary⟩
  cases a with
  | onHTTPUpgrade connection request remoteEndpoint =>
      refine hrun _ ?_
      have hnew : connection ∉ h.state.connections := by
        have hnothing : h.callsOf connection = [] := by
          rw [callsOf, show h.stage connection = none from ha]
          rfl
        rw [hinv.member, hnothing]
        rintro ⟨-, hopen, -⟩
        cases hopen
      exact (@faithful_act_iff ι _ h.state hfaithful
        (.writeHandshake connection remoteEndpoint) hnew).2 trivial
  | answerWritten connection lock ec =>
      exact hrun _ (hperform connection _ (.answerWritten lock ec) hdistinct)
  | readCompleted connection lock k =>
      exact hrun _ (hperform connection _ (.complete lock k) hdistinct)
  | call call =>
      show (h.call setup call).state.Faithful
      rwa [state_call]
  | stopInternal =>
      rw [State.faithful_iff_tracks]
      intro id c
      simp [act, Hub.stopInternal]

/-- **The run lemma.** -/
theorem inv_foldl (hinv : Inv setup h) {acts : List (Act ι)}
    (hallowed : Machine.Along (act setup) Allowed h acts) :
    Inv setup (acts.foldl (act setup) h) ∧
      (h.state.Faithful → Machine.Along (act setup) (Distinct setup) h acts →
        (acts.foldl (act setup) h).state.Faithful) := by
  induction acts generalizing h with
  | nil => exact ⟨hinv, fun hfaithful _ => hfaithful⟩
  | cons a acts ih =>
      obtain ⟨ha, hallowed⟩ := hallowed
      obtain ⟨hlast, hfaithful⟩ := ih (hinv.act ha) hallowed
      refine ⟨hlast, ?_⟩
      rintro hfaithful₀ ⟨hdistinct, hacts⟩
      exact hfaithful (faithful_act hinv hfaithful₀ ha hdistinct) hacts

/-- What is handed to `onMessageCallback`. -/
def inMessage? : Event → Option InMessage
  | .onMessage m => some m
  | _ => none

/-- The messages that a connection has received. -/
def delivered (h : Hub ι) (connection : ι) : List InMessage :=
  (h.callsOf connection).filterMap inMessage?

/-- A text or binary data is passed on, and nothing else. -/
def passedOn (setup : Setup) (connection : ι) (id : Bytes) (m : InMessage) : List (Visible ι) :=
  if m.finRsvOpcode = 129 then [.received connection (.messageReceived id (setup.string m.string))]
  else if m.finRsvOpcode = 130 then
    [.received connection (.dataReceived id (memoryBlock m.string m.size))]
  else []

omit [DecidableEq ι] in
theorem seen_onMessage (connection : ι) (id : Bytes) (m : InMessage) :
    seen setup connection id (.onMessage m) = passedOn setup connection id m := by
  simp only [seen, passedOn, onMessageCallback, onMessage]
  split
  · rfl
  split
  · rfl
  · rfl

end Hub

/-- What the listeners are told of a connection, in order, which has received some messages: nothing;
that it failed; or that it has been opened, its messages, and perhaps its end, which is told twice for
a message that is too big.  The flag is whether it is open. -/
inductive Tale {ι : Type} (setup : Setup) (connection : ι) (id : Bytes) :
    List InMessage → Bool → List (Visible ι) → Prop
  | nothing : Tale setup connection id [] false []
  | failed (ec : ErrorCode) : Tale setup connection id [] false
      [.listener connection (.connectionError id (setup.errorMessage ec))]
  | opened (received : List InMessage) : Tale setup connection id received true
      (.listener connection (.connectionOpened id) ::
        received.flatMap (Hub.passedOn setup connection id))
  | closed (received : List InMessage) (status : ℤ) (reason : Bytes) :
      Tale setup connection id received false
        (.listener connection (.connectionOpened id) ::
          received.flatMap (Hub.passedOn setup connection id) ++
          [.listener connection (.connectionClosed id status reason)])
  | failedLater (received : List InMessage) (ec : ErrorCode) :
      Tale setup connection id received false
        (.listener connection (.connectionOpened id) ::
          received.flatMap (Hub.passedOn setup connection id) ++
          [.listener connection (.connectionError id (setup.errorMessage ec))])
  | tooBig (received : List InMessage) : Tale setup connection id received false
      (.listener connection (.connectionOpened id) ::
        received.flatMap (Hub.passedOn setup connection id) ++
        [.listener connection (.connectionError id (setup.errorMessage .messageSize)),
          .listener connection (.connectionClosed id 1009 (ascii "message too big"))])

/-- A connection is told of as it has called. -/
theorem Spoken.tale {ι : Type} {calls : List Event} (h : Spoken calls) (connection : ι) (id : Bytes) :
    ∃ isOpen, Tale setup connection id (calls.filterMap Hub.inMessage?) isOpen
        (calls.flatMap (Hub.seen setup connection id)) ∧
      (isOpen = true ↔ IsOpen calls) := by
  have hdata : ∀ es : List Event, (∀ e ∈ es, e.Ordinary) →
      es.flatMap (Hub.seen setup connection id) =
        (es.filterMap Hub.inMessage?).flatMap (Hub.passedOn setup connection id) := by
    intro es hes
    induction es with
    | nil => rfl
    | cons e es ih =>
        have he := hes e List.mem_cons_self
        rw [List.flatMap_cons, ih fun e' he' => hes e' (List.mem_cons_of_mem _ he')]
        cases e with
        | onMessage m => rw [Hub.seen_onMessage]; rfl
        | onPing | onPong => rfl
        | onOpen | onClose | onError | enqueue | frame => exact he.elim
  cases h with
  | nothing => exact ⟨false, .nothing, by simp [IsOpen]⟩
  | failed ec => exact ⟨false, .failed ec, by simp [IsOpen]⟩
  | @opened es hes =>
      refine ⟨true, ?_, iff_of_true rfl ⟨List.mem_cons_self, ?_⟩⟩
      · have htale := @Tale.opened ι setup connection id (es.filterMap Hub.inMessage?)
        rw [← hdata es hes] at htale
        exact htale
      · intro e he
        rcases List.mem_cons.1 he with rfl | he
        · rfl
        · exact (hes e he).terminal
  | @ended es ending hes hending =>
      refine ⟨false, ?_, iff_of_false Bool.false_ne_true (not_isOpen_terminal hending)⟩
      have hseen : (.onOpen :: es ++ ending).flatMap (Hub.seen setup connection id) =
          .listener connection (.connectionOpened id) ::
            (es.filterMap Hub.inMessage?).flatMap (Hub.passedOn setup connection id) ++
            ending.flatMap (Hub.seen setup connection id) := by
        rw [List.flatMap_append, List.flatMap_cons, hdata es hes]
        rfl
      have hreceived : (.onOpen :: es ++ ending).filterMap Hub.inMessage? =
          es.filterMap Hub.inMessage? := by
        have hend : ending.filterMap Hub.inMessage? = [] := by cases hending <;> rfl
        rw [List.filterMap_append, hend, List.append_nil]
        rfl
      rw [hseen, hreceived]
      cases hending with
      | close status reason => exact .closed _ status reason
      | error ec => exact .failedLater _ ec
      | tooBig => exact .tooBig _

/-! ### Main results -/

variable {ι : Type} [DecidableEq ι]

/-- **The listeners know whom a message reaches.**  However any connections are upgraded, read, fail
and are closed, and whatever the program sends meanwhile: the map leads from an id to a connection
exactly if the last that the listeners have been told of the id is that it has been opened, and the
server has not been stopped; and the messages on the send queue of that connection are those that the
program has sent since then to all, to that id, or to all but some others, in order and once each.  As
long as no connection is opened, closed or fails while another one that is open has its address and
port, the map leads to all connections that are open. -/
theorem listeners_know (setup : Setup) {acts : List (Hub.Act ι)}
    (hallowed : Machine.Along (Hub.act setup) Hub.Allowed ({} : Hub ι) acts) :
    let h := acts.foldl (Hub.act setup) {}
    (∀ id messages, (h.state.connectionMap.lookup id).map h.messagesTo = some messages ↔
      ∃ before since, h.history.filterMap Visible.roomEvent? = before ++ .joins id :: since ∧
        (∀ e ∈ since, ¬ e.Concerns id) ∧
        messages = since.filterMap (Room.Event.heardBy id)) ∧
    (Machine.Along (Hub.act setup) (Hub.Distinct setup) ({} : Hub ι) acts →
      ∀ c ∈ h.state.connections,
        h.state.connectionMap.lookup (h.state.getConnectionString c) = some c) := by
  intro h
  obtain ⟨hinv, hfaithful⟩ := Hub.inv_foldl (@Hub.inv_init setup ι _) hallowed
  refine ⟨?_, ?_⟩
  · intro id messages
    have hroom : (h.state.connectionMap.lookup id).map h.messagesTo = h.room id :=
      congrFun hinv.room id
    rw [hroom]
    exact Room.after_eq_some_iff
  · intro hdistinct c hc
    exact ((hfaithful faithful_init hdistinct).entry _ c).2 ⟨hc, rfl⟩

/-- Two connections are opened; the first one fails. -/
def visitors : List (Hub.Act ℕ) :=
  [.onHTTPUpgrade 0 Server.sampleRequest (some ⟨ascii "::1", 50000⟩), .answerWritten 0 true none,
    .onHTTPUpgrade 1 Server.sampleRequest (some ⟨ascii "::1", 50001⟩), .answerWritten 1 true none,
    .call (.send (ascii "hi")), .readCompleted 0 true ⟨some (.transport 2), []⟩,
    .call (.sendExclude (ascii "bye") [ascii "::1:50000"])]

/-- A server for any path. -/
def anyPath : Setup where
  sha1 _ := Server.cutDigest
  order := .insertion
  regexMatch _ := true
  string s := s
  errorMessage _ := ascii "End of file"

theorem allowed_visitors :
    Machine.Along (Hub.act anyPath) Hub.Allowed ({} : Hub ℕ) visitors :=
  ⟨rfl, trivial, rfl, trivial, trivial, trivial, trivial, trivial⟩

theorem listeners_know_visitors :
    let h := visitors.foldl (Hub.act anyPath) {}
    (∀ id messages, (h.state.connectionMap.lookup id).map h.messagesTo = some messages ↔
      ∃ before since, h.history.filterMap Visible.roomEvent? = before ++ .joins id :: since ∧
        (∀ e ∈ since, ¬ e.Concerns id) ∧
        messages = since.filterMap (Room.Event.heardBy id)) ∧
    (Machine.Along (Hub.act anyPath) (Hub.Distinct anyPath) ({} : Hub ℕ) visitors →
      ∀ c ∈ h.state.connections,
        h.state.connectionMap.lookup (h.state.getConnectionString c) = some c) :=
  listeners_know anyPath allowed_visitors

/-- **What the listeners are told of each connection**, in every run: that it failed, or that it has
been opened, then the texts and the binary data that it has received, in order and once each, and then
at most one end, or two calls for a message that is too big; always under one id.  In between, until
the server is stopped, it is in the set of connections. -/
theorem listeners_are_told (setup : Setup) {acts : List (Hub.Act ι)}
    (hallowed : Machine.Along (Hub.act setup) Hub.Allowed ({} : Hub ι) acts) (c : ι) :
    let h := acts.foldl (Hub.act setup) {}
    ∃ isOpen, Tale setup c (h.state.getConnectionString c) (h.delivered c) isOpen (h.toldOf c) ∧
      (c ∈ h.state.connections ↔ isOpen = true ∧ h.stopped = false) := by
  intro h
  obtain ⟨hinv, -⟩ := Hub.inv_foldl (@Hub.inv_init setup ι _) hallowed
  have hspoken : Spoken (h.callsOf c) := by
    unfold Hub.callsOf
    cases hs : h.stage c with
    | none => exact .nothing
    | some s => exact (hinv.speaks c s hs).1
  obtain ⟨isOpen, htale, hopen⟩ := @Spoken.tale setup ι _ hspoken c (h.state.getConnectionString c)
  refine ⟨isOpen, ?_, ?_⟩
  · rw [hinv.told]
    exact htale
  · rw [hinv.member, hopen]
    exact And.comm

theorem listeners_are_told_visitors :
    let h := visitors.foldl (Hub.act anyPath) {}
    ∃ isOpen, Tale anyPath 1 (h.state.getConnectionString 1) (h.delivered 1) isOpen (h.toldOf 1) ∧
      (1 ∈ h.state.connections ↔ isOpen = true ∧ h.stopped = false) :=
  listeners_are_told anyPath allowed_visitors 1

end SimpleWebSocketServer

end SimpleWeb
