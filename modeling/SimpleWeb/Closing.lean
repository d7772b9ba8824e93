/-
**What is put on the send queue after a close frame.**

`send_close` of `websocket/server_ws.hpp` and `websocket/client_ws.hpp` does nothing when `closed`
is set, and otherwise sets it and sends a close frame.  It is what the program calls, what the read
loop calls after an error of the protocol, for a message that is too big and as the answer to a close
frame, and what the client's idle timer calls.  `send` does not look at `closed`: the program can
send what it likes at any time.

So behind the close frame of `send_close` there is none of another call of `send_close`, and of the
frames with data, or that close, none but those that the program itself has sent.

Main definitions:

* `SimpleWeb.IsDataOrClose`, `SimpleWeb.dataHeaders` — the frames in question, by their first byte;
* `SimpleWeb.Closing` — what one step does to `closed` and to these frames;
* `SimpleWeb.Server.sentHeaders`, `SimpleWeb.Client.sentHeaders` — those that the program sends.

Main results:

* `SimpleWeb.run_closing` — **a flag that is set once**: the run lemma, for any machine;
* `SimpleWeb.Server.closing_act`, `SimpleWeb.Client.closing_act` — what one step does;
* `SimpleWeb.closes_once` — **one close frame, and behind it only what the program sends**.
-/

import SimpleWeb.Server
import SimpleWeb.Client

set_option relaxedAutoImplicit false
set_option autoImplicit false

namespace SimpleWeb

/-! ### Frames by their first byte -/

/-- The first byte of a frame with data, or of one that closes. -/
def IsDataOrClose (b : UInt8) : Prop :=
  opcode b = 0 ∨ opcode b = 1 ∨ opcode b = 2 ∨ opcode b = 8

instance (b : UInt8) : Decidable (IsDataOrClose b) :=
  inferInstanceAs (Decidable (opcode b = 0 ∨ opcode b = 1 ∨ opcode b = 2 ∨ opcode b = 8))

/-- The first bytes of the frames, of this kind, that have been put on the send queue. -/
def dataHeaders (log : List Event) : List UInt8 :=
  ((log.filterMap Event.enqueued?).filterMap List.head?).filter IsDataOrClose

@[simp] theorem dataHeaders_append (log log' : List Event) :
    dataHeaders (log ++ log') = dataHeaders log ++ dataHeaders log' := by
  simp [dataHeaders]

@[simp] theorem dataHeaders_nil : dataHeaders [] = [] := rfl

/-- Once a close frame has been put on the queue, no frame with data is, and no second one that
closes. -/
def NoDataAfterClose (log : List Event) : Prop :=
  (dataHeaders log).Pairwise fun b _ => opcode b ≠ 8

/-- The opcode is the lower half of the byte. -/
theorem toNat_opcode (b : UInt8) : (opcode b).toNat = b.toNat % 16 := by
  rw [opcode, UInt8.toNat_and]
  exact Nat.and_two_pow_sub_one_eq_mod _ 4

/-- The answer to a ping is a pong. -/
theorem opcode_pong {b : UInt8} (h : opcode b = 9) : opcode (b + 1) = 10 := by
  have hping := congrArg UInt8.toNat h
  rw [toNat_opcode] at hping
  refine UInt8.toNat_inj.1 ?_
  rw [toNat_opcode, UInt8.toNat_add]
  change b.toNat % 16 = 9 at hping
  change (b.toNat + 1) % 256 % 16 = 10
  omega

theorem filter_pong {b : UInt8} (h : opcode b = 9) : [b + 1].filter IsDataOrClose = [] := by
  have hpong : ¬ IsDataOrClose (b + 1) := by
    rw [IsDataOrClose, opcode_pong h]
    decide
  simp [hpong]

/-! ### A flag that is set once -/

/-- What one step does to the flag and to the output: nothing; or it sets the flag, which was not
set, and puts out `close`. -/
def Closing {β : Type*} (close : β) (s s' : Bool × List β) : Prop :=
  s' = s ∨ s.1 = false ∧ s' = (true, s.2 ++ [close])

namespace Closing

variable {β : Type*} {close : β}

theorem refl (s : Bool × List β) : Closing close s s := Or.inl rfl

end Closing

/-- **A flag that is set once.**  When every action either puts out what it is told to and leaves
the flag alone, or is told nothing and does what `Closing` says, then in every run the output is
what the actions are told, with `close` in one place if the flag has been set: behind what the
actions up to that place are told. -/
theorem run_closing {σ α β : Type*} {act : σ → α → σ} {state : σ → Bool × List β} {close : β}
    {told : α → List β}
    (hstep : ∀ s a, state (act s a) = ((state s).1, (state s).2 ++ told a) ∨
      told a = [] ∧ Closing close (state s) (state (act s a)))
    (acts : List α) (s : σ) (hs : (state s).1 = false) :
    ∃ pre post, acts = pre ++ post ∧
      (state (pre.foldl act s)).1 = (state (acts.foldl act s)).1 ∧
      (state (pre.foldl act s)).2 = (state s).2 ++ pre.flatMap told ++
        (if (state (acts.foldl act s)).1 then [close] else []) ∧
      (state (acts.foldl act s)).2 = (state (pre.foldl act s)).2 ++ post.flatMap told := by
  induction acts using List.reverseRecOn with
  | nil => exact ⟨[], [], rfl, rfl, by simp [hs], by simp⟩
  | append_singleton acts a ih =>
      obtain ⟨pre, post, rfl, hflag, hpre, hpost⟩ := ih
      generalize hs' : (pre ++ post).foldl act s = s' at hflag hpre hpost
      have hfold : (pre ++ post ++ [a]).foldl act s = act s' a := by simp [List.foldl_append, ← hs']
      rw [hfold]
      rcases hstep s' a with h | ⟨htold, h | ⟨hclosed, h⟩⟩
      · refine ⟨pre, post ++ [a], by simp, by rw [h, hflag], by rw [hpre, h], ?_⟩
        simp [h, hpost]
      · refine ⟨pre, post ++ [a], by simp, by rw [h, hflag], by rw [hpre, h], ?_⟩
        simp [h, hpost, htold]
      · refine ⟨pre ++ post ++ [a], [], by simp, by rw [hfold], ?_, by rw [hfold]; simp⟩
        rw [hfold, h, hpost, hpre, hclosed]
        simp [htold]

/-! ### The server -/

namespace Server

/-- `closed`, and the frames with data, or that close, on the send queue. -/
def Conn.closing (c : Conn) : Bool × List UInt8 := (c.closed, dataHeaders c.log)

/-- The frames of this kind that the program sends. -/
def sentHeaders : Act → List UInt8
  | .send _ finRsvOpcode => [finRsvOpcode].filter IsDataOrClose
  | .complete _ _ => []
  | .sendClose _ _ => []

variable {endpoint : Callbacks} {config : Config}

namespace Conn

theorem dataHeaders_send (outMessage : Bytes) (b : UInt8) :
    dataHeaders [.enqueue (outData outMessage b)] = [b].filter IsDataOrClose := rfl

theorem closing_readMessage (c : Conn) : c.readMessage.closing = c.closing := rfl

theorem closing_call (c : Conn) (set : Bool) {e : Event} (he : e.enqueued? = none) :
    (c.call set e).closing = c.closing := by
  cases set with
  | false => simp [closing, call]
  | true => simp [closing, call, dataHeaders, he]

theorem closing_send (c : Conn) (outMessage : Bytes) (b : UInt8) :
    (c.send outMessage b).closing =
      (c.closing.1, c.closing.2 ++ [b].filter IsDataOrClose) := by
  simp [closing, send, dataHeaders_send]

theorem closing_sendClose (c : Conn) (status : ℤ) (reason : Bytes) :
    Closing 136 c.closing (c.sendClose status reason).closing := by
  unfold sendClose
  split
  · exact Closing.refl _
  · next h =>
      refine Or.inr ⟨by simpa [closing] using h, ?_⟩
      rw [closing_send]
      rfl

theorem closing_connectionClose (c : Conn) (status : ℤ) (reason : Bytes) :
    (c.connectionClose endpoint status reason).closing = c.closing :=
  closing_call _ _ rfl

theorem closing_connectionError (c : Conn) (ec : ErrorCode) :
    (c.connectionError endpoint ec).closing = c.closing :=
  closing_call _ _ rfl

theorem closing_messageTooBig (c : Conn) :
    Closing 136 c.closing (c.messageTooBig endpoint).closing := by
  unfold messageTooBig
  rw [closing_connectionClose, ← @closing_connectionError endpoint c .messageSize]
  exact closing_sendClose _ _ _

theorem closing_readMessageContent (c : Conn) (length : UInt64) (b : UInt8) :
    Closing 136 c.closing (c.readMessageContent endpoint config length b).closing := by
  unfold readMessageContent
  split
  · exact closing_messageTooBig c
  · exact Closing.refl _

theorem closing_onFirstBytes (c : Conn) (n : ℕ) :
    Closing 136 c.closing (c.onFirstBytes endpoint config n).closing := by
  simp only [onFirstBytes]
  split
  · exact Closing.refl _
  split
  · rw [closing_connectionClose]
    exact closing_sendClose _ _ _
  split
  · exact Closing.refl _
  split
  · exact Closing.refl _
  · exact closing_readMessageContent _ _ _

/-- A frame closes the connection, is answered by a pong, or puts nothing on the queue. -/
theorem closing_handleFrame (c : Conn) (length : UInt64) (b : UInt8) (payload : Bytes) :
    Closing 136 c.closing (c.handleFrame endpoint length b payload).closing := by
  have hframe : ∀ m, ((c.frameDecoded b payload).storeFragment b m).closing = c.closing := by
    intro m
    simp [closing, frameDecoded, storeFragment, dataHeaders, Event.enqueued?]
  by_cases h8 : opcode b = 8
  · rw [handleFrame_close h8]
    dsimp only
    rw [closing_connectionClose, ← hframe (c.inMessage length b payload)]
    exact closing_sendClose _ _ _
  by_cases h9 : opcode b = 9
  · rw [handleFrame_ping h9]
    refine Or.inl ?_
    dsimp only
    rw [closing_readMessage, closing_call _ _ rfl, closing_send, filter_pong h9, List.append_nil,
      hframe]
  by_cases h10 : opcode b = 10
  · rw [handleFrame_pong h10]
    refine Or.inl ?_
    rw [closing_readMessage, closing_call _ _ rfl, hframe]
  cases hfin : fin b with
  | false =>
      rw [handleFrame_fragment h8 h9 h10 hfin]
      exact Or.inl (hframe (c.inMessage length b payload))
  | true =>
      rw [handleFrame_final h8 h9 h10 hfin]
      have hcall := closing_call (c.frameDecoded b payload) endpoint.onMessage
        (e := .onMessage (c.inMessage length b payload)) rfl
      exact Or.inl (hcall.trans (hframe (c.inMessage length b payload)))

theorem closing_complete (c : Conn) (lock : Bool) (k : Completion UInt8 ErrorCode) :
    Closing 136 c.closing (c.complete endpoint config lock k).closing := by
  unfold complete
  cases c.reading with
  | none => exact Closing.refl _
  | some op =>
      cases lock with
      | false => exact Closing.refl _
      | true =>
          simp only [Bool.not_true, Bool.false_eq_true, if_false]
          cases k.ec with
          | some ec =>
              exact Or.inl (closing_connectionError _ _)
          | none =>
              cases op with
              | firstBytes => exact closing_onFirstBytes _ _
              | lengthBytes numBytes b => exact closing_readMessageContent _ _ _
              | content length b => exact closing_handleFrame _ _ _ _

end Conn

theorem Reachable.act {c : Conn} (h : Reachable endpoint config c) (a : Act) (ha : Allowed c a) :
    Reachable endpoint config (act endpoint config c a) :=
  Machine.Reach.step h ha

/-- **What one step does**: the program's own sends aside, there is at most one close frame. -/
theorem closing_act (c : Conn) (a : Act) :
    (act endpoint config c a).closing = (c.closing.1, c.closing.2 ++ sentHeaders a) ∨
      sentHeaders a = [] ∧ Closing 136 c.closing (act endpoint config c a).closing := by
  cases a with
  | complete lock k => exact Or.inr ⟨rfl, c.closing_complete lock k⟩
  | send outMessage b => exact Or.inl (c.closing_send outMessage b)
  | sendClose status reason => exact Or.inr ⟨rfl, c.closing_sendClose status reason⟩

end Server

/-! ### The client -/

namespace Client

/-- `closed`, and the frames with data, or that close, on the send queue. -/
def Conn.closing (c : Conn) : Bool × List UInt8 := (c.closed, dataHeaders c.log)

/-- The frames of this kind that the program sends. -/
def sentHeaders : Act → List UInt8
  | .send _ finRsvOpcode => [finRsvOpcode].filter IsDataOrClose
  | .complete _ _ => []
  | .sendClose _ _ => []

variable {callbacks : Callbacks} {config : Config}

namespace Conn

theorem dataHeaders_send (mask : Mask) (outMessage : Bytes) (b : UInt8) :
    dataHeaders [.enqueue (outData mask outMessage b)] = [b].filter IsDataOrClose := rfl

theorem closing_readMessage (c : Conn) (k : ℕ) : (c.readMessage k).closing = c.closing := rfl

theorem closing_call (c : Conn) (set : Bool) {e : Event} (he : e.enqueued? = none) :
    (c.call set e).closing = c.closing := by
  cases set with
  | false => simp [closing, call]
  | true => simp [closing, call, dataHeaders, he]

theorem closing_send (c : Conn) (outMessage : Bytes) (b : UInt8) :
    (c.send outMessage b).closing =
      (c.closing.1, c.closing.2 ++ [b].filter IsDataOrClose) := by
  simp [closing, send, dataHeaders_send]

theorem closing_sendClose (c : Conn) (status : ℤ) (reason : Bytes) :
    Closing 136 c.closing (c.sendClose status reason).closing := by
  unfold sendClose
  split
  · exact Closing.refl _
  · next h =>
      refine Or.inr ⟨by simpa [closing] using h, ?_⟩
      rw [closing_send]
      rfl

theorem closing_connectionClose (c : Conn) (status : ℤ) (reason : Bytes) :
    (c.connectionClose callbacks status reason).closing = c.closing :=
  closing_call _ _ rfl

theorem closing_connectionError (c : Conn) (ec : ErrorCode) :
    (c.connectionError callbacks ec).closing = c.closing :=
  closing_call _ _ rfl

theorem closing_messageTooBig (c : Conn) :
    Closing 136 c.closing (c.messageTooBig callbacks).closing := by
  unfold messageTooBig
  rw [closing_connectionClose, ← @closing_connectionError callbacks c .messageSize]
  exact closing_sendClose _ _ _

theorem closing_readMessageContent (c : Conn) (k : ℕ) :
    Closing 136 c.closing (c.readMessageContent callbacks config k).closing := by
  unfold readMessageContent
  split
  · exact closing_messageTooBig c
  · exact Closing.refl _

theorem closing_onFirstBytes (c : Conn) (k n : ℕ) :
    Closing 136 c.closing (c.onFirstBytes callbacks config k n).closing := by
  simp only [onFirstBytes]
  split
  · exact Closing.refl _
  split
  · rw [closing_connectionClose]
    exact closing_sendClose _ _ _
  split
  · exact Closing.refl _
  split
  · exact Closing.refl _
  · exact closing_readMessageContent _ _

/-- A frame closes the connection, is answered by a pong, or puts nothing on the queue. -/
theorem closing_handleFrame (c : Conn) (next : InMessage) (k : ℕ) :
    Closing 136 c.closing (c.handleFrame callbacks next k).closing := by
  have hframe : c.frameDecoded.closing = c.closing := by
    simp [closing, frameDecoded, dataHeaders, Event.enqueued?]
  by_cases h8 : opcode c.inMessage.finRsvOpcode = 8
  · rw [handleFrame_close h8]
    dsimp only
    rw [closing_connectionClose, ← hframe]
    exact closing_sendClose _ _ _
  by_cases h9 : opcode c.inMessage.finRsvOpcode = 9
  · rw [handleFrame_ping h9]
    refine Or.inl ?_
    have hcall := closing_call (c.frameDecoded.send c.inMessage.string
      (c.inMessage.finRsvOpcode + 1)) callbacks.onPing (e := .onPing) rfl
    rw [closing_send, filter_pong h9, List.append_nil, hframe] at hcall
    exact hcall
  by_cases h10 : opcode c.inMessage.finRsvOpcode = 10
  · rw [handleFrame_pong h10]
    have hcall := closing_call c.frameDecoded callbacks.onPong (e := .onPong) rfl
    exact Or.inl (hcall.trans hframe)
  cases hfin : fin c.inMessage.finRsvOpcode with
  | false =>
      rw [handleFrame_fragment h8 h9 h10 hfin]
      exact Or.inl hframe
  | true =>
      rw [handleFrame_final h8 h9 h10 hfin]
      exact Or.inl ((closing_call c.frameDecoded callbacks.onMessage rfl).trans hframe)

theorem closing_onContent (c : Conn) (k : ℕ) :
    Closing 136 c.closing (c.onContent callbacks k).closing := by
  simp only [onContent]
  split
  · exact closing_handleFrame { c with inMessage := _ } _ _
  · exact closing_handleFrame c _ _

theorem closing_complete (c : Conn) (lock : Bool) (k : Completion UInt8 ErrorCode) :
    Closing 136 c.closing (c.complete callbacks config lock k).closing := by
  unfold complete
  cases c.reading with
  | none => exact Closing.refl _
  | some op =>
      cases lock with
      | false => exact Closing.refl _
      | true =>
          simp only [Bool.not_true, Bool.false_eq_true, if_false]
          cases k.ec with
          | some ec => exact Or.inl (closing_connectionError _ _)
          | none =>
              cases op with
              | firstBytes j => exact closing_onFirstBytes _ _ _
              | lengthBytes numBytes j => exact closing_readMessageContent _ _
              | content j => exact closing_onContent _ _

end Conn

theorem Reachable.act {c : Conn} (h : Reachable callbacks config c) (a : Act) (ha : Allowed c a) :
    Reachable callbacks config (act callbacks config c a) :=
  Machine.Reach.step h ha

/-- **What one step does**: the program's own sends aside, there is at most one close frame. -/
theorem closing_act (c : Conn) (a : Act) :
    (act callbacks config c a).closing = (c.closing.1, c.closing.2 ++ sentHeaders a) ∨
      sentHeaders a = [] ∧ Closing 136 c.closing (act callbacks config c a).closing := by
  cases a with
  | complete lock k => exact Or.inr ⟨rfl, c.closing_complete lock k⟩
  | send outMessage b => exact Or.inl (c.closing_send outMessage b)
  | sendClose status reason => exact Or.inr ⟨rfl, c.closing_sendClose status reason⟩

end Client

/-! ### Both -/

/-- **One close frame, and behind it only what the program sends.**  In every run from the end of the
handshake, on the server and on the client, `send_close` puts at most one close frame on the send
queue, whoever calls it.  The frames with data, or that close, in front of it and behind it are
exactly those that the program has sent before and after. -/
theorem closes_once (callbacks : Callbacks) :
    (∀ (config : Server.Config) (streambuf : Bytes) (acts : List Server.Act),
      let run := fun acts : List Server.Act =>
        acts.foldl (Server.act callbacks config) (Server.opened callbacks streambuf)
      ∃ pre post, acts = pre ++ post ∧ (run pre).closed = (run acts).closed ∧
        dataHeaders (run pre).log =
          pre.flatMap Server.sentHeaders ++ (if (run acts).closed then [136] else []) ∧
        dataHeaders (run acts).log =
          dataHeaders (run pre).log ++ post.flatMap Server.sentHeaders) ∧
    ∀ (config : Client.Config) (rd : ℕ → Mask) (streambuf : Bytes) (n : ℕ)
      (acts : List Client.Act),
      let run := fun acts : List Client.Act =>
        acts.foldl (Client.act callbacks config) (Client.opened callbacks rd streambuf n)
      ∃ pre post, acts = pre ++ post ∧ (run pre).closed = (run acts).closed ∧
        dataHeaders (run pre).log =
          pre.flatMap Client.sentHeaders ++ (if (run acts).closed then [136] else []) ∧
        dataHeaders (run acts).log =
          dataHeaders (run pre).log ++ post.flatMap Client.sentHeaders := by
  refine ⟨?_, ?_⟩
  · intro config streambuf acts run
    have hopened : (Server.opened callbacks streambuf).closing = (false, []) := by
      rw [Server.opened, Server.Conn.closing_readMessage]
      exact Server.Conn.closing_call _ _ rfl
    obtain ⟨pre, post, hacts, hclosed, hpre, hpost⟩ :=
      run_closing (@Server.closing_act callbacks config) acts (Server.opened callbacks streambuf)
        (by rw [hopened])
    rw [hopened, List.nil_append] at hpre
    exact ⟨pre, post, hacts, hclosed, hpre, hpost⟩
  · intro config rd streambuf n acts run
    have hopened : (Client.opened callbacks rd streambuf n).closing = (false, []) := by
      rw [Client.opened, Client.Conn.closing_readMessage]
      exact Client.Conn.closing_call _ _ rfl
    obtain ⟨pre, post, hacts, hclosed, hpre, hpost⟩ :=
      run_closing (@Client.closing_act callbacks config) acts
        (Client.opened callbacks rd streambuf n) (by rw [hopened])
    rw [hopened, List.nil_append] at hpre
    exact ⟨pre, post, hacts, hclosed, hpre, hpost⟩

/-- The program may send a message after it has closed the connection; the message is put on the
send queue behind the close frame. -/
theorem data_after_close :
    (¬ ∀ c, Server.Reachable {} {} c → NoDataAfterClose c.log) ∧
      ¬ ∀ c, Client.Reachable {} {} c → NoDataAfterClose c.log := by
  refine ⟨?_, ?_⟩
  · intro h
    have hopened : Server.Reachable {} {} (Server.opened {} []) := Machine.Reach.init ⟨[], rfl⟩
    have hclose := hopened.act (.sendClose 1000 []) trivial
    have hsend := hclose.act (.send (ascii "a") 129) trivial
    have hpair := List.pairwise_cons.1 (h _ hsend)
    exact hpair.1 129 (List.mem_cons_self ..) rfl
  · intro h
    have hopened : Client.Reachable {} {} (Client.opened {} (fun _ _ => 0) [] 0) :=
      Machine.Reach.init ⟨_, [], rfl⟩
    have hclose := hopened.act (.sendClose 1000 []) trivial
    have hsend := hclose.act (.send (ascii "a") 129) trivial
    have hpair := List.pairwise_cons.1 (h _ hsend)
    exact hpair.1 129 (List.mem_cons_self ..) rfl

end SimpleWeb
