/-
**What the timeouts of a WebSocket connection do.**

The stages of `SimpleWeb.Timed` are those of a server's connection, from where it is accepted or handed
to `upgrade`, and those of a client's, from `connect` on.  Neither side waits longer than the timeout
of what it waits for, when there is one, before its timer closes the connection, which on an open
client is a close frame; nor does the timer do so before.

There is a gap.  The handler that ends the read loop begins with `cancel_timeout`, and if a write is
outstanding at that moment nothing sets the timer again before that write has ended.  A peer that sends
a close frame and stops reading keeps the connection for as long as it likes.

Main definitions:

* `SimpleWeb.Server.Stage.line`, `SimpleWeb.Client.Attempt.line` — the stages of the two sides;
* `SimpleWeb.Timed.Punctual` — neither later nor sooner.

Main results:

* `SimpleWeb.Server.connection_punctual`, `SimpleWeb.Client.attempt_punctual` — **both sides keep their timeouts**;
* `SimpleWeb.unwatched_writes` — **which writes no timer watches**.
-/

import SimpleWeb.ClientConnect
import SimpleWeb.Closing
import SimpleWeb.Incoming
import SimpleWeb.ServerLifecycle
import SimpleWeb.Timeouts

set_option relaxedAutoImplicit false
set_option autoImplicit false

namespace SimpleWeb

/-- Neither later nor sooner.  For as long as nothing happens to a connection that waits for something
with a timeout, less time passes than that timeout, until its timer has closed it or is about to; and
its socket is shut down, or is about to be, by its timer only when nothing has happened for the whole
of a timeout. -/
structure Timed.Punctual {σ α : Type*} (L : Line σ α) (t : Timeouts Timeout) (s : σ)
    (acts : List (Timed.Act α)) : Prop where
  notLater : ∀ pre later p, acts = pre ++ later →
    Machine.Along (Timed.act L t) (Timed.Silent L t) (Timed.run L t s pre) later →
    L.waits (Timed.run L t s acts).stage = some p → t.seconds p ≠ 0 →
    (Timed.run L t s acts).shut = true ∨ L.gaveUp (Timed.run L t s acts).stage = true ∨
      (Timed.run L t s acts).watch.Due ∨
      (Timed.run L t s acts).watch.now < (Timed.run L t s pre).watch.now + t.limit p
  notSooner : (Timed.run L t s acts).shut = true ∨ (Timed.run L t s acts).watch.Due →
    (∃ pre a post, acts = pre ++ .act a :: post ∧
      L.closes (Timed.run L t s pre).stage a = true) ∨
    Timed.HasWaited L t s acts

theorem Timed.punctual_of_lawful {σ α : Type*} {L : Line σ α} {t : Timeouts Timeout} (hL : L.Lawful) (s : σ)
    (acts : List (Timed.Act α)) : Timed.Punctual L t s acts where
  notLater pre later p hacts hlater hwaits hp := by
    subst hacts
    exact Timed.silent_lt hL s hlater hwaits hp
  notSooner h := Timed.waited_of_shut hL s acts h

theorem newlyEnqueued_self (log : List Event) : newlyEnqueued log log = [] := by
  simp [newlyEnqueued]

/-! ### The server -/

namespace Server

namespace Stage

def log : Stage → List Event
  | .connected _ c => c.log
  | _ => []

/-- `read_handshake` and `write_handshake` pass `timeout_request`, and `read_message` nothing. -/
def waits : Stage → Option Timeout
  | .handshake => some .request
  | .answering _ _ => some .request
  | .connected _ c => if c.reading.isSome then some .idle else none
  | .ended => none

def handles : Stage → Stage.Act → Bool
  | .handshake, .requestRead _ _ _ => true
  | .answering _ _, .answerWritten _ _ => true
  | .connected _ c, .act (.complete _ _) => c.reading.isSome
  | _, _ => false

def opened : Stage → Bool
  | .connected _ _ => true
  | _ => false

/-- `stop` closes the connections in the set of a server that has been started. -/
def closes : Stage → Stage.Act → Bool
  | .connected _ c, .stop acceptor => acceptor && c.inConnections
  | _, _ => false

/-- The stages of a server's connection, whose timer always closes the socket. -/
def line (config : Config) (sha1 : Bytes → Digest) (beyond : Bytes) (order : Order)
    (endpoints : List Endpoint) : Line Stage Stage.Act where
  act := act config sha1 beyond order endpoints
  log := log
  waits := waits
  handles := handles
  opened := opened
  gaveUp _ := false
  closes := closes
  onIdle := none

variable {config : Config} {sha1 : Bytes → Digest} {beyond : Bytes} {order : Order}
  {endpoints : List Endpoint}

theorem log_write (r : Option Answer × Bytes) : (write r).log = [] := by
  obtain ⟨a, streambuf⟩ := r
  cases a <;> rfl

/-- The end of the handshake puts nothing on the send queue. -/
theorem enqueued_onWritten (a : Answer) (streambuf : Bytes) (lock : Bool) (ec : Option ErrorCode) :
    enqueued (onWritten a streambuf lock ec).log = [] := by
  unfold onWritten
  cases lock with
  | false => rfl
  | true =>
      simp only [Bool.not_true, Bool.false_eq_true, if_false]
      split
      · rfl
      · cases ec with
        | none =>
            simp only [Conn.connectionOpen, Conn.readMessage, Conn.call]
            split <;> rfl
        | some ec =>
            simp only [Conn.connectionError, Conn.call]
            split <;> rfl

/-- Sending does not touch the outstanding read. -/
theorem reading_sendClose (c : Conn) (status : ℤ) (reason : Bytes) :
    (c.sendClose status reason).reading = c.reading := by
  unfold Conn.sendClose
  split <;> rfl

/-- What the stages of a server's connection satisfy. -/
theorem line_lawful : (line config sha1 beyond order endpoints).Lawful where
  waits_act s a hhandles := by
    cases s with
    | handshake =>
        cases a with
        | requestRead => cases hhandles
        | answerWritten | act | stop => rfl
    | answering answer streambuf =>
        cases a with
        | answerWritten => cases hhandles
        | requestRead | act | stop => rfl
    | connected endpoint c =>
        cases a with
        | requestRead | answerWritten => rfl
        | stop acceptor => cases acceptor <;> rfl
        | act a =>
            cases a with
            | send outMessage b => rfl
            | sendClose status reason =>
                change (if (c.sendClose status reason).reading.isSome = true then _ else _) = _
                rw [reading_sendClose]
                rfl
            | complete lock k =>
                have hnone : c.reading = none := Option.not_isSome_iff_eq_none.1 (by
                  change c.reading.isSome = false at hhandles
                  simp [hhandles])
                have hsame : c.complete endpoint config lock k = c := by
                  unfold Conn.complete
                  rw [hnone]
                change waits (.connected endpoint (c.complete endpoint config lock k)) = _
                rw [hsame]
                rfl
    | ended => cases a <;> rfl
  waits_of_handles s a hhandles := by
    cases s with
    | handshake => simp [line, waits]
    | answering answer streambuf => simp [line, waits]
    | connected endpoint c =>
        cases a with
        | requestRead | answerWritten | stop => cases hhandles
        | act a =>
            cases a with
            | send | sendClose => cases hhandles
            | complete lock k =>
                change c.reading.isSome = true at hhandles
                simp [line, waits, hhandles]
    | ended => cases a <;> cases hhandles
  waits_opened s p hwaits := by
    cases s with
    | handshake =>
        obtain rfl := Option.some.inj hwaits
        simp [line, opened]
    | answering answer streambuf =>
        obtain rfl := Option.some.inj hwaits
        simp [line, opened]
    | connected endpoint c =>
        simp only [line, waits] at hwaits
        split at hwaits
        · obtain rfl := Option.some.inj hwaits
          simp [line, opened]
        · cases hwaits
    | ended => cases hwaits
  opened_act s a hopened := by
    cases s with
    | handshake | answering | ended => cases hopened
    | connected endpoint c => cases a <;> rfl
  handles_of_opens s a hbefore hafter := by
    cases s with
    | handshake =>
        cases a with
        | requestRead => rfl
        | answerWritten | act | stop => cases hafter
    | answering answer streambuf =>
        cases a with
        | answerWritten => rfl
        | requestRead | act | stop => cases hafter
    | connected endpoint c => cases hbefore
    | ended => cases a <;> cases hafter
  opened_of_sends s a hbefore := by
    cases s with
    | handshake =>
        cases a with
        | requestRead lock ec streambuf =>
            simp only [line, act]
            split
            · rw [log_write]
              rfl
            · rfl
        | answerWritten | act | stop => rfl
    | answering answer streambuf =>
        cases a with
        | answerWritten lock ec =>
            simp only [line, act, log, newlyEnqueued, enqueued_onWritten]
            rfl
        | requestRead | act | stop => rfl
    | connected endpoint c => cases hbefore
    | ended => cases a <;> rfl
  gaveUp_act s a h := h
  gaveUp_onIdle a ha := by cases ha
  closes_onIdle a ha := by cases ha

end Stage

/-- **A server's connection keeps its timeouts**, in every run: `timeout_request` while it reads its
request and while it writes the answer, and then `timeout_idle`. -/
theorem connection_punctual (config : Config) (sha1 : Bytes → Digest) (beyond : Bytes) (order : Order)
    (endpoints : List Endpoint) (t : Timeouts Timeout) (upgraded : Option RequestMessage)
    (acts : List (Timed.Act Stage.Act)) :
    Timed.Punctual (Stage.line config sha1 beyond order endpoints) t
      (Stage.start config sha1 beyond order endpoints upgraded) acts :=
  Timed.punctual_of_lawful Stage.line_lawful _ acts

/-- A connection that is accepted, and sends nothing for five seconds. -/
theorem connection_punctual_accepted :
    (Timed.run (Stage.line {} calcSha1 [] .insertion []) Server.timeouts .handshake
      (List.replicate 5 .tick)).watch.Due := by
  have hsilent : ∀ s, Timed.Silent (Stage.line {} calcSha1 [] .insertion [])
      timeouts s .tick := by
    intro s o ho
    rw [List.mem_singleton.1 ho]
    exact id
  have hkept := connection_punctual {} calcSha1 [] .insertion [] timeouts none (List.replicate 5 .tick)
  rcases hkept.notLater [] _ .request rfl ⟨hsilent _, hsilent _, hsilent _, hsilent _, hsilent _, trivial⟩
    rfl (by decide) with hshut | hgaveUp | hdue | hlt
  · exact absurd hshut (by decide)
  · exact absurd hgaveUp (by decide)
  · exact hdue
  · exact absurd hlt (by decide)

end Server

/-! ### The client -/

namespace Client

namespace Attempt

def log : Attempt → List Event
  | .upgrading (.connected c) => c.log
  | _ => []

/-- `connect` and `upgrade` pass `timeout_request`, and `read_message` nothing. -/
def waits : Attempt → Option Timeout
  | .resolving => some .request
  | .connecting => some .request
  | .proxyWriting => some .request
  | .proxyReading => some .request
  | .handshaking => some .request
  | .upgrading .requested => some .request
  | .upgrading .responding => some .request
  | .upgrading (.connected c) => if c.reading.isSome then some .idle else none
  | .upgrading .ended => none

def handles : Attempt → Act → Bool
  | .resolving, .resolved _ _ => true
  | .connecting, .connected _ _ => true
  | .proxyWriting, .proxyWritten _ _ => true
  | .proxyReading, .proxyRead _ _ _ => true
  | .handshaking, .handshaken _ _ => true
  | .upgrading .requested, .stage (.requestWritten _ _) => true
  | .upgrading .responding, .stage (.responseRead _ _ _ _) => true
  | .upgrading (.connected c), .stage (.act (.complete _ _)) => c.reading.isSome
  | _, _ => false

/-- The handshake is over, or it has failed. -/
def opened : Attempt → Bool
  | .upgrading (.connected _) => true
  | _ => false

/-- A close frame has been sent. -/
def closed : Attempt → Bool
  | .upgrading (.connected c) => c.closed
  | _ => false

/-- The stages of a client's connection, of which a timer set with `timeout_idle` sends a close
frame.  What `stop` closes is reported by the operation that is outstanding. -/
def line (callbacks : Callbacks) (config : Config) (secure : Bool) (sha1 : Bytes → Digest)
    (beyond : Bytes) (order : Order) (rd : ℕ → Mask) (nonce : Nonce) : Line Attempt Act where
  act := act callbacks config secure sha1 beyond order rd nonce
  log := log
  waits := waits
  handles := handles
  opened := opened
  gaveUp := closed
  closes _ _ := false
  onIdle := some (.stage (.act (.sendClose 1000 (ascii "idle timeout"))))

variable {callbacks : Callbacks} {config : Config} {secure : Bool} {sha1 : Bytes → Digest}
  {beyond : Bytes} {order : Order} {rd : ℕ → Mask} {nonce : Nonce}

theorem reading_sendClose (c : Conn) (status : ℤ) (reason : Bytes) :
    (c.sendClose status reason).reading = c.reading := by
  unfold Conn.sendClose
  split <;> rfl

/-- A handler that does not go on leaves a connection whose handshake has failed. -/
theorem enqueued_handler {lock : Bool} {ec : Option ErrorCode} {next : Attempt}
    (hnext : enqueued next.log = []) :
    enqueued (handler callbacks rd lock ec next).log = [] := by
  cases lock with
  | false => rfl
  | true =>
      cases ec with
      | none => exact hnext
      | some ec =>
          change enqueued ([] ++ if callbacks.onError then [Event.onError ec] else []) = []
          split <;> rfl

theorem enqueued_connectionError (ec : ErrorCode) :
    enqueued (connectionError callbacks rd ec).log = [] := by
  change enqueued ([] ++ if callbacks.onError then [Event.onError ec] else []) = []
  split <;> rfl

theorem enqueued_onProxyRead (streambuf : Bytes) :
    enqueued (onProxyRead callbacks rd streambuf).log = [] := by
  unfold onProxyRead
  split
  · rfl
  split
  · exact enqueued_connectionError _
  split
  · exact enqueued_connectionError _
  · rfl

theorem enqueued_onConnected : enqueued (onConnected config secure).log = [] := by
  unfold onConnected
  split
  · rfl
  split <;> rfl

/-- Nor does the end of the handshake put anything on the send queue. -/
theorem enqueued_onResponseRead (lock : Bool) (ec : Option ErrorCode) (streambuf : Bytes) (n : ℕ)
    {c : Conn}
    (h : onResponseRead callbacks sha1 beyond order rd nonce lock ec streambuf n = .ok c) :
    enqueued c.log = [] := by
  have herror : ∀ (c : Conn) (ec : ErrorCode), c.log = [] →
      enqueued (c.connectionError callbacks ec).log = [] := by
    intro c ec hlog
    simp only [Conn.connectionError, Conn.call, hlog, List.nil_append]
    split <;> rfl
  cases lock with
  | false =>
      obtain rfl := Except.ok.inj h
      rfl
  | true =>
      cases ec with
      | some ec =>
          obtain rfl := Except.ok.inj h
          exact herror _ ec rfl
      | none =>
          have hcheck : onResponse callbacks sha1 beyond order rd nonce streambuf n = .ok c := h
          rcases onResponse_cases streambuf n with
            ⟨c', ec, hlog, -, h⟩ | ⟨fault, h⟩ | ⟨response, rest, -, h⟩
          · obtain rfl := Except.ok.inj (hcheck.symm.trans h)
            exact herror c' ec hlog
          · cases hcheck.symm.trans h
          · obtain rfl := Except.ok.inj (hcheck.symm.trans h)
            change enqueued ([] ++ if callbacks.onOpen then [Event.onOpen] else []) = []
            split <;> rfl

theorem newlyEnqueued_of_nil {log log' : List Event} (h : enqueued log' = []) :
    newlyEnqueued log log' = [] := by
  simp [newlyEnqueued, h]

/-- `closed` is not reset. -/
theorem closed_act_connected {c : Conn} (h : c.closed = true) (a : Client.Act) :
    (Client.act callbacks config c a).closed = true := by
  cases a with
  | send outMessage b => exact h
  | sendClose status reason => exact closed_sendClose c status reason
  | complete lock k =>
      rcases @Conn.closing_complete callbacks config c lock k with hsame | ⟨hfalse, -⟩
      · exact (congrArg Prod.fst hsame).trans h
      · exact absurd (h.symm.trans hfalse) (by simp)

/-- What is no handler of the outstanding operation: sending, on an open connection. -/
theorem act_of_not_handles (s : Attempt) (a : Act) (h : handles s a = false) :
    act callbacks config secure sha1 beyond order rd nonce s a = s ∨
      ∃ c c', s = .upgrading (.connected c) ∧ c'.reading = c.reading ∧
        act callbacks config secure sha1 beyond order rd nonce s a =
          .upgrading (.connected c') := by
  cases s with
  | resolving =>
      cases a with
      | resolved => cases h
      | connected | proxyWritten | proxyRead | handshaken | stage => exact Or.inl rfl
  | connecting =>
      cases a with
      | connected => cases h
      | resolved | proxyWritten | proxyRead | handshaken | stage => exact Or.inl rfl
  | proxyWriting =>
      cases a with
      | proxyWritten => cases h
      | resolved | connected | proxyRead | handshaken | stage => exact Or.inl rfl
  | proxyReading =>
      cases a with
      | proxyRead => cases h
      | resolved | connected | proxyWritten | handshaken | stage => exact Or.inl rfl
  | handshaking =>
      cases a with
      | handshaken => cases h
      | resolved | connected | proxyWritten | proxyRead | stage => exact Or.inl rfl
  | upgrading s =>
      cases a with
      | resolved | connected | proxyWritten | proxyRead | handshaken => exact Or.inl rfl
      | stage a =>
          cases s with
          | requested =>
              cases a with
              | requestWritten => cases h
              | responseRead | act => exact Or.inl rfl
          | responding =>
              cases a with
              | responseRead => cases h
              | requestWritten | act => exact Or.inl rfl
          | connected c =>
              cases a with
              | requestWritten | responseRead => exact Or.inl rfl
              | act a =>
                  refine Or.inr ⟨c, Client.act callbacks config c a, rfl, ?_, rfl⟩
                  cases a with
                  | send => rfl
                  | sendClose status reason => exact reading_sendClose c status reason
                  | complete lock k =>
                      change c.reading.isSome = false at h
                      have hnone : c.reading = none := by simpa using h
                      change (c.complete callbacks config lock k).reading = c.reading
                      unfold Conn.complete
                      rw [hnone]
                      exact hnone
          | ended => cases a <;> exact Or.inl rfl

/-- Only an open connection puts frames on the send queue. -/
theorem sends_of_unopened (s : Attempt) (a : Act) (hopened : opened s = false) :
    newlyEnqueued s.log (act callbacks config secure sha1 beyond order rd nonce s a).log = [] := by
  cases hhandles : handles s a with
  | false =>
      rcases act_of_not_handles s a hhandles with hsame | ⟨c, c', rfl, -, -⟩
      · rw [hsame]
        exact newlyEnqueued_self _
      · cases hopened
  | true =>
      refine newlyEnqueued_of_nil ?_
      cases s with
      | resolving =>
          cases a with
          | resolved => exact enqueued_handler rfl
          | connected | proxyWritten | proxyRead | handshaken | stage => cases hhandles
      | connecting =>
          cases a with
          | connected => exact enqueued_handler enqueued_onConnected
          | resolved | proxyWritten | proxyRead | handshaken | stage => cases hhandles
      | proxyWriting =>
          cases a with
          | proxyWritten => exact enqueued_handler rfl
          | resolved | connected | proxyRead | handshaken | stage => cases hhandles
      | proxyReading =>
          cases a with
          | proxyRead => exact enqueued_handler (enqueued_onProxyRead _)
          | resolved | connected | proxyWritten | handshaken | stage => cases hhandles
      | handshaking =>
          cases a with
          | handshaken => exact enqueued_handler rfl
          | resolved | connected | proxyWritten | proxyRead | stage => cases hhandles
      | upgrading s =>
          cases a with
          | resolved | connected | proxyWritten | proxyRead | handshaken =>
              cases s <;> cases hhandles
          | stage a =>
              cases s with
              | requested =>
                  cases a with
                  | requestWritten lock ec =>
                      -- a failure ends the handshake as it does before
                      have hfailed : (act callbacks config secure sha1 beyond order rd nonce
                          (.upgrading .requested) (.stage (.requestWritten lock ec))) =
                          handler callbacks rd lock ec (.upgrading .responding) := by
                        cases lock with
                        | false => rfl
                        | true => cases ec <;> rfl
                      rw [hfailed]
                      exact enqueued_handler rfl
                  | responseRead | act => cases hhandles
              | responding =>
                  cases a with
                  | responseRead lock ec streambuf n =>
                      simp only [act, Stage.act]
                      split
                      · next c hc => exact enqueued_onResponseRead lock ec streambuf n hc
                      · rfl
                  | requestWritten | act => cases hhandles
              | connected c => cases hopened
              | ended => cases a <;> cases hhandles

/-- What the stages of a client's connection satisfy. -/
theorem line_lawful :
    (line callbacks config secure sha1 beyond order rd nonce).Lawful where
  waits_act s a hhandles := by
    change (act callbacks config secure sha1 beyond order rd nonce s a).waits = s.waits
    rcases @act_of_not_handles callbacks config secure sha1 beyond order rd nonce s a hhandles with
      hsame | ⟨c, c', rfl, hreading, hact⟩
    · rw [hsame]
    · rw [hact, waits, waits, hreading]
  waits_of_handles s a hhandles := by
    cases s with
    | resolving | connecting | proxyWriting | proxyReading | handshaking => simp [line, waits]
    | upgrading s =>
        cases s with
        | requested | responding => simp [line, waits]
        | connected c =>
            cases a with
            | resolved | connected | proxyWritten | proxyRead | handshaken => cases hhandles
            | stage a =>
                cases a with
                | requestWritten | responseRead => cases hhandles
                | act a =>
                    cases a with
                    | send | sendClose => cases hhandles
                    | complete lock k =>
                        change c.reading.isSome = true at hhandles
                        simp [line, waits, hhandles]
        | ended =>
            cases a with
            | stage a => cases a <;> cases hhandles
            | resolved | connected | proxyWritten | proxyRead | handshaken => cases hhandles
  waits_opened s p hwaits := by
    cases s with
    | resolving | connecting | proxyWriting | proxyReading | handshaking =>
        obtain rfl := Option.some.inj hwaits
        simp [line, opened]
    | upgrading s =>
        cases s with
        | requested | responding =>
            obtain rfl := Option.some.inj hwaits
            simp [line, opened]
        | connected c =>
            simp only [line, waits] at hwaits
            split at hwaits
            · obtain rfl := Option.some.inj hwaits
              simp [line, opened]
            · cases hwaits
        | ended => cases hwaits
  opened_act s a hopened := by
    cases s with
    | resolving | connecting | proxyWriting | proxyReading | handshaking => cases hopened
    | upgrading s =>
        cases s with
        | requested | responding | ended => cases hopened
        | connected c =>
            cases a with
            | resolved | connected | proxyWritten | proxyRead | handshaken => rfl
            | stage a => cases a <;> rfl
  handles_of_opens s a hbefore hafter := by
    by_contra hhandles
    have hfalse : handles s a = false := eq_false_of_ne_true hhandles
    rcases @act_of_not_handles callbacks config secure sha1 beyond order rd nonce s a hfalse with
      hsame | ⟨c, c', rfl, -, -⟩
    · change opened (act callbacks config secure sha1 beyond order rd nonce s a) = true at hafter
      rw [hsame] at hafter
      exact absurd (hafter.symm.trans hbefore) (by simp)
    · cases hbefore
  opened_of_sends s a hopened := sends_of_unopened s a hopened
  gaveUp_act s a hclosed := by
    cases s with
    | resolving | connecting | proxyWriting | proxyReading | handshaking => cases hclosed
    | upgrading s =>
        cases s with
        | requested | responding | ended => cases hclosed
        | connected c =>
            cases a with
            | resolved | connected | proxyWritten | proxyRead | handshaken => exact hclosed
            | stage a =>
                cases a with
                | requestWritten | responseRead => exact hclosed
                | act a => exact closed_act_connected hclosed a
  gaveUp_onIdle a ha s hopened := by
    obtain rfl := Option.some.inj ha
    cases s with
    | resolving | connecting | proxyWriting | proxyReading | handshaking => cases hopened
    | upgrading s =>
        cases s with
        | requested | responding | ended => cases hopened
        | connected c => exact closed_sendClose c _ _
  closes_onIdle a ha s := rfl

end Attempt

/-- **A client's connection keeps its timeouts**, in every run, plain or secure, through a proxy or
not: `timeout_request` while it connects, for each of the operations, and then `timeout_idle`, as long
as it has not sent a close frame. -/
theorem attempt_punctual (callbacks : Callbacks) (config : Config) (secure : Bool)
    (sha1 : Bytes → Digest) (beyond : Bytes) (order : Order) (rd : ℕ → Mask) (nonce : Nonce)
    (t : Timeouts Timeout) (acts : List (Timed.Act Attempt.Act)) :
    Timed.Punctual (Attempt.line callbacks config secure sha1 beyond order rd nonce) t .resolving
      acts :=
  Timed.punctual_of_lawful Attempt.line_lawful _ acts

end Client

/-! ### Writes -/

/-- Writes are watched, with the one exception: for as long as nothing happens, a write of a connection
with an idle timeout is outstanding for less than that, or the timer has done what it does or is about
to, or the read loop was ended during that write; and the last is the case exactly if there is no
timer. -/
structure Timed.WritesWatched {σ α : Type*} (L : Line σ α) (t : Timeouts Timeout) (s : σ)
    (acts : List (Timed.Act α)) : Prop where
  bounded : ∀ pre later, acts = pre ++ later →
    Machine.Along (Timed.act L t) (Timed.Silent L t) (Timed.run L t s pre) later →
    (Timed.run L t s acts).sendQueue.outstanding ≠ [] → t.seconds .idle ≠ 0 →
    (Timed.run L t s acts).shut = true ∨ L.gaveUp (Timed.run L t s acts).stage = true ∨
      (Timed.run L t s acts).watch.Due ∨
      (Timed.run L t s acts).watch.now < (Timed.run L t s pre).watch.now + t.limit .idle ∨
      Timed.Orphan L t s acts
  exactly : (Timed.run L t s acts).sendQueue.outstanding ≠ [] → t.seconds .idle ≠ 0 →
    (Timed.run L t s acts).shut = false → L.gaveUp (Timed.run L t s acts).stage = false →
    ¬ (Timed.run L t s acts).watch.Due →
    ((Timed.run L t s acts).watch.timer = none ↔ Timed.Orphan L t s acts)

theorem Timed.writesWatched_of_lawful {σ α : Type*} {L : Line σ α} {t : Timeouts Timeout} (hL : L.Lawful)
    (s : σ) (acts : List (Timed.Act α)) : Timed.WritesWatched L t s acts where
  bounded pre later hacts hlater hout hidle := by
    subst hacts
    rcases Timed.outstanding_run hL hidle s (pre ++ later) hout with h | h | h | h
    · exact Or.inl h
    · exact Or.inr (Or.inl h)
    · by_cases hdue : (Timed.run L t s (pre ++ later)).watch.Due
      · exact Or.inr (Or.inr (Or.inl hdue))
      · refine Or.inr (Or.inr (Or.inr (Or.inl ?_)))
        rw [Timed.run, List.foldl_append] at h hdue ⊢
        have htimely := (Timed.works L t).timely (Timed.timely_start L t s) pre
        exact (Timed.works L t).elapsed_lt htimely hlater h hdue
    · exact Or.inr (Or.inr (Or.inr (Or.inr h)))
  exactly hout hidle hshut hgaveUp hdue :=
    Timed.unwatched_iff hL hidle s acts hout hshut hgaveUp hdue

/-- **Which writes no timer watches**, on the server and on the client, in every run: those that were
outstanding when a handler ended the read loop, until they have ended. -/
theorem unwatched_writes (sha1 : Bytes → Digest) (beyond : Bytes) (order : Order) (t : Timeouts Timeout) :
    (∀ (config : Server.Config) (endpoints : List Server.Endpoint)
      (upgraded : Option RequestMessage) (acts : List (Timed.Act Server.Stage.Act)),
      Timed.WritesWatched (Server.Stage.line config sha1 beyond order endpoints) t
        (Server.Stage.start config sha1 beyond order endpoints upgraded) acts) ∧
    ∀ (callbacks : Callbacks) (config : Client.Config) (secure : Bool) (rd : ℕ → Mask)
      (nonce : Client.Nonce) (acts : List (Timed.Act Client.Attempt.Act)),
      Timed.WritesWatched
        (Client.Attempt.line callbacks config secure sha1 beyond order rd nonce) t .resolving
        acts :=
  ⟨fun _ _ _ acts => Timed.writesWatched_of_lawful Server.Stage.line_lawful _ acts,
    fun _ _ _ _ _ acts => Timed.writesWatched_of_lawful Client.Attempt.line_lawful _ acts⟩

/-- Two seconds of idleness are allowed. -/
def shortIdle : Timeouts Timeout where
  seconds _ := 2

/-- The program has sent a message, which is being written when a close frame arrives. -/
def closedWhileWriting : List (Timed.Act Server.Stage.Act) :=
  [.act (.answerWritten true none), .act (.act (.send [104, 105] 129)),
    .act (.act (.complete true ⟨none, [136, 128]⟩)), .act (.act (.complete true ⟨none, [0, 0, 0, 0]⟩)),
    .tick, .tick, .tick]

theorem unwatched_writes_closing :
    Timed.Orphan (Server.Stage.line {} calcSha1 [] .insertion [Server.sampleEndpoint])
      shortIdle (Server.Stage.start {} calcSha1 [] .insertion [Server.sampleEndpoint]
        (some Server.sampleRequest)) closedWhileWriting := by
  have hwatched := (unwatched_writes calcSha1 [] .insertion shortIdle).1 {}
    [Server.sampleEndpoint] (some Server.sampleRequest) closedWhileWriting
  have htimer : (Timed.run (Server.Stage.line {} calcSha1 [] .insertion [Server.sampleEndpoint])
      shortIdle (Server.Stage.start {} calcSha1 [] .insertion [Server.sampleEndpoint]
        (some Server.sampleRequest)) closedWhileWriting).watch.timer = none := by decide
  refine (hwatched.exactly (by decide) (by decide) (by decide) rfl ?_).1 htimer
  rintro (hne | ⟨deadline, a, h, -⟩)
  · exact absurd hne (by decide)
  · cases htimer.symm.trans h

end SimpleWeb
