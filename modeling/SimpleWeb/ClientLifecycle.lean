/-
**The life of a client's connection.**

A connection of `websocket/client_ws.hpp` writes a request, reads the response and then runs its read
loop.  The handlers call callbacks as `SimpleWeb.Turn` says.

Main definitions:

* `SimpleWeb.Client.Conn.standing`, `SimpleWeb.Client.Conn.OverSize` — what has been called, and when
  a message is too big;
* `SimpleWeb.Client.Stage` — a connection from its beginning.

Main results:

* `SimpleWeb.Client.Stage.turn_act` — **what one step does to the calls**.
-/

import SimpleWeb.Standing
import SimpleWeb.Upgrade

set_option relaxedAutoImplicit false
set_option autoImplicit false

namespace SimpleWeb.Client

/-! ### The read loop -/

/-- A client keeps no set of connections. -/
def Conn.standing (c : Conn) : Standing := ⟨c.reading.isSome, false, callsOf c.log⟩

variable {callbacks : Callbacks} {config : Config}

namespace Conn

/-- The length announced by a frame header, of which the last part is read now: what
`read_message_content` finds in `in_message`. -/
def announced (c : Conn) (k : Completion UInt8 ErrorCode) : Option UInt64 :=
  let streambuf := c.inMessage.streambuf ++ k.data
  match c.reading with
  | some (.firstBytes _) =>
      let lengthByte := streambuf.getD 1 0
      let length := (lengthByte &&& 127).toUInt64
      if lengthByte ≥ 128 ∨ length = 126 ∨ length = 127 then none else some length
  | some (.lengthBytes numBytes _) => some (readLength numBytes (streambuf.take numBytes))
  | some (.content _) => none
  | none => none

/-- The message is too big: with the fragments received so far it exceeds `max_message_size`. -/
def OverSize (config : Config) (c : Conn) (k : Completion UInt8 ErrorCode) : Prop :=
  ∃ length, c.announced k = some length ∧ config.maxMessageSize < length + c.fragmentedLength

theorem standing_call (c : Conn) {e : Event} (he : e.IsCall) :
    (c.call (callbacks.isSet e) e).standing =
      { c.standing with calls := c.standing.calls ++ [e].filter callbacks.isSet } := by
  simp only [standing, call, callsOf_append, callsOf_call he]

theorem standing_send (c : Conn) (outMessage : Bytes) (b : UInt8) :
    (c.send outMessage b).standing = c.standing := by
  simp [standing, send]

theorem standing_sendClose (c : Conn) (status : ℤ) (reason : Bytes) :
    (c.sendClose status reason).standing = c.standing := by
  unfold sendClose
  split
  · rfl
  · rw [standing_send]
    rfl

theorem standing_connectionClose (c : Conn) (status : ℤ) (reason : Bytes) :
    (c.connectionClose callbacks status reason).standing =
      ⟨c.standing.reading, false,
        c.standing.calls ++ [.onClose status reason].filter callbacks.isSet⟩ :=
  standing_call (e := .onClose status reason) c trivial

theorem standing_connectionError (c : Conn) (ec : ErrorCode) :
    (c.connectionError callbacks ec).standing =
      ⟨c.standing.reading, false, c.standing.calls ++ [.onError ec].filter callbacks.isSet⟩ :=
  standing_call (e := .onError ec) c trivial

section handled

variable {big : Prop} {c : Conn} {reading : Bool} {calls : List Event}

/-- The read loop goes on, and nothing has been called. -/
theorem handled_quiet (hs : c.standing = ⟨reading, false, calls⟩) :
    Handled callbacks big false calls c.standing := by
  have hgoesOn : Handled callbacks big false calls ⟨reading, false, calls ++ []⟩ :=
    .goesOn reading (by simp)
  rw [List.append_nil] at hgoesOn
  rwa [hs]

/-- The read loop goes on after a call. -/
theorem handled_call (hs : c.standing = ⟨false, false, calls⟩) {e : Event} (he : e.Ordinary)
    (hcall : e.IsCall) {set : Bool} (hset : callbacks.isSet e = set) {c' : Conn}
    (hc' : c'.standing = { (c.call set e).standing with reading := true }) :
    Handled callbacks big false calls c'.standing := by
  rw [← hset, standing_call c hcall, hs] at hc'
  rw [hc']
  refine .goesOn true ?_
  intro e' he'
  rw [List.mem_singleton.1 (List.mem_of_mem_filter he')]
  exact he

theorem handled_connectionClose (hs : c.standing = ⟨false, false, calls⟩) (status : ℤ)
    (reason reason' : Bytes) :
    Handled callbacks big false calls
      ((c.sendClose status reason').connectionClose callbacks status reason).standing := by
  rw [standing_connectionClose, standing_sendClose, hs]
  exact .ends (.close status reason)

theorem handled_readMessageContent (hs : c.standing = ⟨false, false, calls⟩) (j : ℕ) :
    Handled callbacks (config.maxMessageSize < c.inMessage.length + c.fragmentedLength) false calls
      (c.readMessageContent callbacks config j).standing := by
  unfold readMessageContent
  split
  · next hbig =>
      rw [messageTooBig, standing_connectionClose, standing_sendClose, standing_connectionError, hs]
      dsimp only
      rw [List.append_assoc, ← List.filter_append]
      exact .ends (.tooBig hbig)
  · refine @handled_quiet _ _ _ true _ ?_
    rw [standing, Standing.mk.injEq] at hs ⊢
    exact ⟨rfl, hs.2⟩

/-- The handler of the read of the first two bytes. -/
theorem handled_onFirstBytes {j : ℕ} (hreading : c.reading = some (.firstBytes j))
    (k : Completion UInt8 ErrorCode) (n : ℕ) :
    Handled callbacks (c.OverSize config k) false (callsOf c.log)
      ({ c with
          reading := none
          inMessage := { c.inMessage with
            streambuf := c.inMessage.streambuf ++ k.data } }.onFirstBytes callbacks config j
        n).standing := by
  simp only [onFirstBytes]
  split
  · exact handled_quiet rfl
  split
  · exact handled_connectionClose rfl _ _ _
  split
  · exact handled_quiet rfl
  split
  · exact handled_quiet rfl
  · next hmasked h126 h127 =>
      refine Handled.mono ?_ (handled_readMessageContent rfl _)
      intro hbig
      refine ⟨_, ?_, hbig⟩
      simp only [announced, hreading]
      rw [if_neg]
      rintro (h | h | h)
      · exact hmasked h
      · exact h126 h
      · exact h127 h

/-- What is done with a frame. -/
theorem handled_handleFrame (hs : c.standing = ⟨false, false, calls⟩) (next : InMessage) (j : ℕ) :
    Handled callbacks big false calls (c.handleFrame callbacks next j).standing := by
  have hframe : c.frameDecoded.standing = ⟨false, false, calls⟩ := by
    rw [← hs]
    simp [standing, frameDecoded]
  by_cases h8 : opcode c.inMessage.finRsvOpcode = 8
  · rw [handleFrame_close h8]
    refine handled_connectionClose ?_ _ _ _
    exact hframe
  by_cases h9 : opcode c.inMessage.finRsvOpcode = 9
  · rw [handleFrame_ping h9]
    refine handled_call (e := .onPing) ?_ trivial trivial rfl rfl
    exact (standing_send _ _ _).trans hframe
  by_cases h10 : opcode c.inMessage.finRsvOpcode = 10
  · rw [handleFrame_pong h10]
    exact handled_call (e := .onPong) hframe trivial trivial rfl rfl
  cases hfin : fin c.inMessage.finRsvOpcode with
  | false =>
      rw [handleFrame_fragment h8 h9 h10 hfin]
      have hread := congrArg (fun s : Standing => { s with reading := true }) hframe
      exact handled_quiet hread
  | true =>
      rw [handleFrame_final h8 h9 h10 hfin]
      exact handled_call (e := .onMessage _) hframe trivial trivial rfl rfl

theorem handled_onContent (hs : c.standing = ⟨false, false, calls⟩) (j : ℕ) :
    Handled callbacks big false calls (c.onContent callbacks j).standing := by
  simp only [onContent]
  split
  · refine handled_handleFrame ?_ _ _
    exact hs
  · exact handled_handleFrame hs _ _

end handled

/-- **What the completion of a read does to the calls.** -/
theorem turn_complete (c : Conn) (lock : Bool) (k : Completion UInt8 ErrorCode) :
    Turn callbacks false (lock = true ∧ k.ec = none ∧ c.OverSize config k) c.standing
      (c.complete callbacks config lock k).standing := by
  unfold complete
  cases hreading : c.reading with
  | none => exact .idle
  | some op =>
      have hout : c.standing.reading = true := by simp [standing, hreading]
      refine .handled hout ?_
      cases lock with
      | false => exact handled_quiet rfl
      | true =>
          simp only [Bool.not_true, Bool.false_eq_true, if_false]
          cases hec : k.ec with
          | some ec =>
              dsimp only
              rw [standing_connectionError]
              exact .ends (.error ec)
          | none =>
              refine Handled.mono (fun h : c.OverSize config k => ⟨trivial, rfl, h⟩) ?_
              cases op with
              | firstBytes j => exact handled_onFirstBytes hreading k _
              | lengthBytes numBytes j =>
                  refine Handled.mono ?_ (handled_readMessageContent rfl _)
                  intro hbig
                  refine ⟨_, ?_, hbig⟩
                  simp only [announced, hreading]
              | content j => exact handled_onContent rfl _

end Conn

/-! ### From its beginning -/

/-- A connection from its beginning: its request is written, the response is read, and it runs its
read loop. -/
inductive Stage
  | requested
  | responding
  | connected (c : Conn)
  | ended

/-- What can happen to a connection: the write of its request ends, or the read of the response; it
runs its read loop, and the program sends.  `stop` closes the socket, which ends reads and writes
with an error. -/
inductive Stage.Act
  | requestWritten (lock : Bool) (ec : Option ErrorCode)
  | responseRead (lock : Bool) (ec : Option ErrorCode) (streambuf : Bytes) (bytesTransferred : ℕ)
  | act (a : Client.Act)

namespace Stage

variable (callbacks : Callbacks) (config : Config) (sha1 : Bytes → Digest) (beyond : Bytes)
  (order : Order) (rd : ℕ → Mask) (nonce : Nonce)

def act : Stage → Stage.Act → Stage
  | .requested, .requestWritten lock ec =>
      match onRequestWritten callbacks rd lock ec with
      | some c => .connected c
      | none => .responding
  | .responding, .responseRead lock ec streambuf bytesTransferred =>
      match onResponseRead callbacks sha1 beyond order rd nonce lock ec streambuf
        bytesTransferred with
      | .ok c => .connected c
      | .error _ => .ended
  | .connected c, .act a => .connected (Client.act callbacks config c a)
  | s, _ => s

/-- Whether a read is outstanding, and what has been called. -/
def standing : Stage → Standing
  | .connected c => c.standing
  | _ => ⟨false, false, []⟩

/-- A frame header is read whose message is too big. -/
def OverSize : Stage → Stage.Act → Prop
  | .connected c, .act (.complete lock k) => lock = true ∧ k.ec = none ∧ c.OverSize config k
  | _, _ => False

variable {callbacks config sha1 beyond order rd nonce}

/-- The handshake fails. -/
theorem turn_connectionError {big : Prop} {c : Conn} (hlog : c.log = []) (hreading : c.reading = none)
    (ec : ErrorCode) :
    Turn callbacks false big ⟨false, false, []⟩ (c.connectionError callbacks ec).standing := by
  rw [Conn.standing_connectionError, Conn.standing, hlog, hreading]
  exact .fails rfl

/-- The end of the handshake. -/
theorem turn_onResponseRead {big : Prop} (lock : Bool) (ec : Option ErrorCode) (streambuf : Bytes)
    (n : ℕ) {c : Conn}
    (hc : onResponseRead callbacks sha1 beyond order rd nonce lock ec streambuf n = .ok c) :
    Turn callbacks false big ⟨false, false, []⟩ c.standing := by
  cases lock with
  | false =>
      obtain rfl := Except.ok.inj hc
      exact .idle
  | true =>
      cases ec with
      | some ec =>
          obtain rfl := Except.ok.inj hc
          exact turn_connectionError rfl rfl ec
      | none =>
          have hcheck : onResponse callbacks sha1 beyond order rd nonce streambuf n = .ok c := hc
          rcases onResponse_cases streambuf n with
            ⟨c', ec, hlog, hreading, h⟩ | ⟨fault, h⟩ | ⟨response, rest, -, h⟩
          · obtain rfl := Except.ok.inj (hcheck.symm.trans h)
            exact turn_connectionError hlog hreading ec
          · cases hcheck.symm.trans h
          · obtain rfl := Except.ok.inj (hcheck.symm.trans h)
            have hopen := @Conn.standing_call callbacks
              { inMessage := { InMessage.empty with streambuf := rest }, rd := rd } .onOpen trivial
            have hread := congrArg (fun s : Standing => { s with reading := true }) hopen
            refine Eq.subst hread.symm ?_
            exact .opens rfl

/-- **What one step does to the calls.** -/
theorem turn_act (s : Stage) (a : Stage.Act) :
    Turn callbacks false (s.OverSize config a) s.standing
      (s.act callbacks config sha1 beyond order rd nonce a).standing := by
  cases s with
  | requested =>
      cases a with
      | requestWritten lock ec =>
          cases lock with
          | false => exact .idle
          | true =>
              cases ec with
              | none => exact .idle
              | some ec => exact turn_connectionError rfl rfl ec
      | responseRead | act => exact .idle
  | responding =>
      cases a with
      | responseRead lock ec streambuf n =>
          simp only [act]
          split
          · next c hc => exact turn_onResponseRead lock ec streambuf n hc
          · exact .idle
      | requestWritten | act => exact .idle
  | connected c =>
      cases a with
      | act a =>
          cases a with
          | complete lock k => exact Conn.turn_complete c lock k
          | send outMessage b =>
              have hsend := Conn.standing_send c outMessage b
              exact Eq.subst (motive := Turn callbacks false _ c.standing) hsend.symm .idle
          | sendClose status reason =>
              have hclose := Conn.standing_sendClose c status reason
              exact Eq.subst (motive := Turn callbacks false _ c.standing) hclose.symm .idle
      | requestWritten | responseRead => exact .idle
  | ended => cases a <;> exact .idle

end Stage

end SimpleWeb.Client
