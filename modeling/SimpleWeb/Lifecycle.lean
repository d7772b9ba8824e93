/-
**One end for each connection.**

A handler that fails during the handshake, and each way of ending the read loop, calls
`connection_close` or `connection_error`.  One of them is called, and once, with a single exception:
for a message that is too big `connection_error` is called and then `connection_close`.  Nothing is
called afterwards.  A server has the connection in its set from `connection_open` to that call, or to
`stop`, which looks first whether the server has been started.

Main results:

* `SimpleWeb.one_terminal_event` — **how a connection ends**;
* `SimpleWeb.tooBig_ends_twice` — a message that is too big ends it with two calls, and `stop` on a
  server that has not been started does not take it out of the set.
-/

import SimpleWeb.ClientLifecycle
import SimpleWeb.ServerLifecycle

set_option relaxedAutoImplicit false
set_option autoImplicit false

namespace SimpleWeb

/-- **How a connection ends.**  In every run of a connection of the server, accepted or handed to
`upgrade`, and of one of the client, at most one call ends the connection, unless a message has come
up that is too big, which ends it with `on_error` and then `on_close`; and nothing is called behind.
On the server the connection is in the set from `connection_open` until it has ended or the server,
when it has been started, is stopped, whichever callbacks are set: what would be called if all of them
were tells when that is. -/
theorem one_terminal_event (sha1 : Bytes → Digest) (beyond : Bytes) (order : Order) :
    (∀ (config : Server.Config) (endpoints : List Server.Endpoint)
      (upgraded : Option RequestMessage) (acts : List Server.Stage.Act),
      let act := Server.Stage.act config sha1 beyond order
      let start := fun endpoints =>
        Server.Stage.start config sha1 beyond order endpoints upgraded
      let ending := acts.foldl (act endpoints) (start endpoints)
      let all := endpoints.map Server.Endpoint.listening
      let heard := (acts.foldl (act all) (start all)).standing.calls
      OneTerminal (CameUp (act endpoints) (Server.Stage.OverSize config) (start endpoints) acts)
          ending.standing.calls ∧
        ending.standing.calls = heard.filter ending.callbacks.isSet ∧
        (ending.standing.member = true ↔
          IsOpen heard ∧ ¬ Stopped (act all) Server.Stage.standing (.stop true) (start all) acts)) ∧
    ∀ (callbacks : Callbacks) (config : Client.Config) (rd : ℕ → Mask) (nonce : Client.Nonce)
      (acts : List Client.Stage.Act),
      let act := Client.Stage.act callbacks config sha1 beyond order rd nonce
      OneTerminal (CameUp act (Client.Stage.OverSize config) .requested acts)
        (acts.foldl act .requested).standing.calls := by
  refine ⟨?_, ?_⟩
  · intro config endpoints upgraded acts act start ending all heard
    have hrun : ∀ acts : List Server.Stage.Act, Server.Stage.Hears
        (acts.foldl (act all) (start all)) (acts.foldl (act endpoints) (start endpoints)) :=
      fun acts => Server.Stage.hears_run upgraded acts
    have hstep := fun (s : Server.Stage) (a : Server.Stage.Act) (ha : a ≠ .stop true) =>
      @Server.Stage.turn_act config sha1 beyond order endpoints s a ha
    refine ⟨?_, (hrun acts).calls, ?_⟩
    · refine @run_oneTerminal _ _ _ _ true _ _ ?_ (Server.Stage.standing_start upgraded) acts
      intro s a
      rcases eq_or_ne a (.stop true) with rfl | ha
      · exact Or.inr (Server.Stage.standing_stop s)
      · exact Or.inl ⟨_, hstep s a ha⟩
    · rw [(hrun acts).member]
      exact run_member (fun s a ha => Server.Stage.turn_act s a ha) Server.Stage.standing_stop
        (Server.Stage.standing_start upgraded) acts fun acts => (hrun acts).callbacks
  · intro callbacks config rd nonce acts act
    have hstep := fun s a => @Client.Stage.turn_act callbacks config sha1 beyond order rd nonce s a
    exact @run_oneTerminal _ _ act Client.Stage.standing false (Client.Stage.OverSize config)
      .requested (fun s a => Or.inl ⟨callbacks, hstep s a⟩) rfl acts

/-- No message is allowed. -/
def Server.emptyOnly : Server.Config := { maxMessageSize := 0 }

/-- What the handler of the response makes of the connection. -/
theorem Client.act_responseRead {callbacks : Callbacks} {config : Client.Config}
    {sha1 : Bytes → Digest} {beyond : Bytes} {order : Order} {rd : ℕ → Mask} {nonce : Client.Nonce}
    {streambuf : Bytes} {n : ℕ} {c : Client.Conn}
    (h : Client.onResponse callbacks sha1 beyond order rd nonce streambuf n = .ok c) :
    Client.Stage.act callbacks config sha1 beyond order rd nonce .responding
      (.responseRead true none streambuf n) = .connected c := by
  have hread : Client.onResponseRead callbacks sha1 beyond order rd nonce true none streambuf n =
      .ok c := h
  simp only [Client.Stage.act, hread]

/-- A genuine answer opens the connection. -/
theorem Client.act_wholeAnswer (config : Client.Config) :
    Client.Stage.act {} config calcSha1 [] .insertion (fun _ _ => 0) Client.sampleNonce .responding
        (.responseRead true none Client.wholeAnswer Client.wholeAnswer.length) =
      .connected (Client.opened {} (fun _ _ => 0) [] 0) := by
  have hparse : ResponseMessage.parse Client.wholeAnswer {} = _ :=
    Client.parse_sampleAnswer (by decide)
  have h101 : ascii "101 " <+: ascii "101 Switching Protocols" := by decide
  have hopen := @Client.onResponse_open {} calcSha1 [] .insertion (fun _ _ => 0) Client.sampleNonce
    _ _ Client.wholeAnswer.length _ _ hparse h101 rfl _ Client.decode_wholeDigest rfl
  rw [Nat.sub_self] at hopen
  exact Client.act_responseRead hopen

/-- A message of one byte, when none is allowed, ends a connection twice.  A connection that has been
handed to `upgrade` stays in the set when a server is stopped that has not been started. -/
theorem tooBig_ends_twice :
    (¬ ∀ acts : List Server.Stage.Act,
      let act := Server.Stage.act Server.emptyOnly calcSha1 [] .insertion [Server.sampleEndpoint]
      let start := Server.Stage.start Server.emptyOnly calcSha1 [] .insertion
        [Server.sampleEndpoint] (some Server.sampleRequest)
      ((acts.foldl act start).standing.calls.filterMap Event.terminal?).length ≤ 1) ∧
    (¬ ∀ acts : List Client.Stage.Act,
      let act := Client.Stage.act {} { maxMessageSize := 0 } calcSha1 [] .insertion (fun _ _ => 0)
        Client.sampleNonce
      ((acts.foldl act .requested).standing.calls.filterMap Event.terminal?).length ≤ 1) ∧
    ¬ ∀ acts : List Server.Stage.Act,
      let act := Server.Stage.act {} calcSha1 [] .insertion [Server.sampleEndpoint]
      let start := Server.Stage.start {} calcSha1 [] .insertion [Server.sampleEndpoint]
        (some Server.sampleRequest)
      ((acts.foldl act start).standing.member = true ↔
        IsOpen (acts.foldl act start).standing.calls ∧
          ∀ acceptor, ¬ Stopped act Server.Stage.standing (.stop acceptor) start acts) := by
  refine ⟨?_, ?_, ?_⟩
  · intro h
    have hends := h [.answerWritten true none, .act (.complete true ⟨none, [129, 129]⟩)]
    revert hends
    decide
  · intro h
    have hends := h [.requestWritten true none,
      .responseRead true none Client.wholeAnswer Client.wholeAnswer.length,
      .act (.complete true ⟨none, [129, 1]⟩)]
    have hrequested : Client.Stage.act {} { maxMessageSize := 0 } calcSha1 [] .insertion
        (fun _ _ => 0) Client.sampleNonce .requested (.requestWritten true none) = .responding := rfl
    dsimp only at hends
    rw [List.foldl_cons, List.foldl_cons, hrequested, Client.act_wholeAnswer] at hends
    revert hends
    decide
  · intro h
    have hmember := (h [.answerWritten true none, .stop false]).1 (by decide)
    exact hmember.2 false ⟨[.answerWritten true none], [], rfl, by decide⟩

end SimpleWeb
