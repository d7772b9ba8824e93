/-
**What one completion can do.**

The case split on which the results about all runs of a connection rest.  A completion either is
*quiet*: it decodes no frame, delivers no message and leaves the pending fragments alone; or it is
the end of a content read, and then `handleFrame` runs on the frame that was read.  What
`handleFrame` does is told by the kind of the frame.

The client counts the bytes it has buffered ahead.  Its split holds where that count is right
(`SimpleWeb.Client.Conn.Counted`), and keeps it right.

Main definitions:

* `SimpleWeb.Quietly` — a log extended by neither frames nor messages;
* `SimpleWeb.Server.Conn.Quiet`, `SimpleWeb.Client.Conn.Quiet` — the pending fragments are as they
  were, and the log is extended quietly;
* `SimpleWeb.Client.Conn.Counted` — the outstanding read knows how many bytes are buffered.

Main results:

* `SimpleWeb.Server.complete_cases`, `SimpleWeb.Client.complete_cases` — **the case split**;
* `SimpleWeb.Server.handleFrame_cases`, `SimpleWeb.Client.handleFrame_cases` — the kinds of frames;
* `SimpleWeb.Client.Conn.Counted.act` — the count stays right.
-/

import SimpleWeb.Server
import SimpleWeb.Client

set_option relaxedAutoImplicit false
set_option autoImplicit false

namespace SimpleWeb

/-! ### Quiet extensions of a log -/

/-- Neither a message nor a frame. -/
def Event.Silent (e : Event) : Prop := e.message? = none ∧ e.frame? = none

/-- A log extended by neither frames nor messages. -/
def Quietly (log log' : List Event) : Prop := ∃ es, log' = log ++ es ∧ ∀ e ∈ es, e.Silent

theorem Quietly.refl (log : List Event) : Quietly log log := ⟨[], by simp, by simp⟩

theorem Quietly.trans {log log' log'' : List Event} (h : Quietly log log')
    (h' : Quietly log' log'') : Quietly log log'' := by
  obtain ⟨es, rfl, hes⟩ := h
  obtain ⟨es', rfl, hes'⟩ := h'
  refine ⟨es ++ es', by simp, ?_⟩
  intro e he
  rcases List.mem_append.1 he with he | he
  · exact hes e he
  · exact hes' e he

theorem Quietly.append (log : List Event) {e : Event} (h : e.Silent) : Quietly log (log ++ [e]) :=
  ⟨[e], rfl, by simpa using h⟩

/-- A callback that may not be set. -/
theorem Quietly.call (log : List Event) (set : Bool) {e : Event} (h : e.Silent) :
    Quietly log (log ++ if set then [e] else []) := by
  cases set with
  | true => exact Quietly.append log h
  | false => exact ⟨[], by simp, by simp⟩

theorem silent_enqueue (bytes : Bytes) : (Event.enqueue bytes).Silent := ⟨rfl, rfl⟩

theorem silent_onClose (status : ℤ) (reason : Bytes) : (Event.onClose status reason).Silent :=
  ⟨rfl, rfl⟩

theorem silent_onError (ec : ErrorCode) : (Event.onError ec).Silent := ⟨rfl, rfl⟩

/-! ### The server -/

namespace Server

variable {endpoint : Callbacks} {config : Config}

/-- The pending fragments are as they were, and the log is extended quietly. -/
def Conn.Quiet (c c' : Conn) : Prop :=
  c'.fragmentedInMessage = c.fragmentedInMessage ∧ Quietly c.log c'.log

namespace Conn

theorem Quiet.refl (c : Conn) : c.Quiet c := ⟨rfl, Quietly.refl _⟩

theorem Quiet.trans {c c' c'' : Conn} (h : c.Quiet c') (h' : c'.Quiet c'') : c.Quiet c'' :=
  ⟨h'.1.trans h.1, h.2.trans h'.2⟩

theorem quiet_send (c : Conn) (outMessage : Bytes) (b : UInt8) : c.Quiet (c.send outMessage b) :=
  ⟨rfl, Quietly.append _ (silent_enqueue _)⟩

theorem quiet_sendClose (c : Conn) (status : ℤ) (reason : Bytes) :
    c.Quiet (c.sendClose status reason) := by
  unfold sendClose
  split
  · exact Quiet.refl c
  · exact ⟨rfl, Quietly.append _ (silent_enqueue _)⟩

theorem quiet_connectionClose (c : Conn) (status : ℤ) (reason : Bytes) :
    c.Quiet (c.connectionClose endpoint status reason) :=
  ⟨rfl, Quietly.call _ _ (silent_onClose _ _)⟩

theorem quiet_connectionError (c : Conn) (ec : ErrorCode) :
    c.Quiet (c.connectionError endpoint ec) :=
  ⟨rfl, Quietly.call _ _ (silent_onError _)⟩

theorem quiet_messageTooBig (c : Conn) : c.Quiet (c.messageTooBig endpoint) :=
  ((quiet_connectionError c _).trans (quiet_sendClose _ _ _)).trans (quiet_connectionClose _ _ _)

theorem quiet_readMessageContent (c : Conn) (length : UInt64) (b : UInt8) :
    c.Quiet (c.readMessageContent endpoint config length b) := by
  unfold readMessageContent
  split
  · exact quiet_messageTooBig c
  · exact Quiet.refl c

theorem quiet_onFirstBytes (c : Conn) (bytesTransferred : ℕ) :
    c.Quiet (c.onFirstBytes endpoint config bytesTransferred) := by
  have hdrop : c.Quiet { c with streambuf := c.streambuf.drop 2 } := Quiet.refl c
  simp only [onFirstBytes]
  split
  · exact Quiet.refl c
  split
  · exact (hdrop.trans (quiet_sendClose _ _ _)).trans (quiet_connectionClose _ _ _)
  split
  · exact Quiet.refl c
  split
  · exact Quiet.refl c
  · exact hdrop.trans (quiet_readMessageContent _ _ _)

theorem quiet_onLengthBytes (c : Conn) (numBytes : ℕ) (b : UInt8) :
    c.Quiet (c.onLengthBytes endpoint config numBytes b) := by
  have hdrop : c.Quiet { c with streambuf := c.streambuf.drop numBytes } := Quiet.refl c
  exact hdrop.trans (quiet_readMessageContent _ _ _)

/-! The functions that end a connection issue no read. -/

@[simp] theorem reading_sendClose (c : Conn) (status : ℤ) (reason : Bytes) :
    (c.sendClose status reason).reading = c.reading := by
  unfold sendClose
  split <;> rfl

@[simp] theorem reading_connectionClose (c : Conn) (status : ℤ) (reason : Bytes) :
    (c.connectionClose endpoint status reason).reading = c.reading := rfl

@[simp] theorem reading_connectionError (c : Conn) (ec : ErrorCode) :
    (c.connectionError endpoint ec).reading = c.reading := rfl

@[simp] theorem reading_messageTooBig (c : Conn) :
    (c.messageTooBig endpoint).reading = c.reading := by
  simp [messageTooBig]

end Conn

/-- **What one completion can do**: it is quiet, or a frame has been read. -/
theorem complete_cases {c : Conn} {op : ReadOp} (hr : c.reading = some op) (lock : Bool)
    (k : Completion UInt8 ErrorCode) :
    c.Quiet (c.complete endpoint config lock k) ∨
      ∃ length b payload streambuf, op = .content length b ∧ lock = true ∧ k.ec = none ∧
        payload.length = length.toNat ∧
        c.complete endpoint config lock k =
          { c with reading := none, streambuf := streambuf }.handleFrame endpoint length b
            payload := by
  have hread : c.Quiet { c with reading := none, streambuf := c.streambuf ++ k.data } :=
    Conn.Quiet.refl c
  simp only [Conn.complete, hr]
  cases lock with
  | false => exact Or.inl hread
  | true =>
      simp only [Bool.not_true, Bool.false_eq_true, if_false]
      cases hec : k.ec with
      | some ec => exact Or.inl (hread.trans (Conn.quiet_connectionError _ _))
      | none =>
          cases op with
          | firstBytes => exact Or.inl (hread.trans (Conn.quiet_onFirstBytes _ _))
          | lengthBytes n b => exact Or.inl (hread.trans (Conn.quiet_onLengthBytes _ _ _))
          | content length b =>
              exact Or.inr ⟨length, b, _, _, rfl, trivial, rfl, length_unmask _ _ _, rfl⟩

/-- **What is done with a frame**, by its kind: close, ping or pong, fragment, final frame. -/
theorem handleFrame_cases (c : Conn) (length : UInt64) (b : UInt8) (payload : Bytes) :
    let m := c.inMessage length b payload
    let c' := c.handleFrame endpoint length b payload
    (opcode b = 8 ∧ c'.reading = c.reading ∧ Quietly (c.log ++ [.frame b payload]) c'.log) ∨
    ((opcode b = 9 ∨ opcode b = 10) ∧
      c'.fragmentedInMessage = (if isFragment b then some m else c.fragmentedInMessage) ∧
      Quietly (c.log ++ [.frame b payload]) c'.log) ∨
    ((opcode b ≠ 8 ∧ opcode b ≠ 9 ∧ opcode b ≠ 10) ∧ fin b = false ∧
      c'.fragmentedInMessage = some m ∧ c'.log = c.log ++ [.frame b payload]) ∨
    ((opcode b ≠ 8 ∧ opcode b ≠ 9 ∧ opcode b ≠ 10) ∧ fin b = true ∧
      c'.fragmentedInMessage = none ∧
      c'.log = c.log ++ [.frame b payload] ++ if endpoint.onMessage then [.onMessage m] else []) := by
  intro m c'
  by_cases h8 : opcode b = 8
  · have hc' : c' = _ := Conn.handleFrame_close h8
    refine Or.inl ⟨h8, ?_, ?_⟩
    · rw [hc']
      simp [Conn.storeFragment, Conn.frameDecoded]
    · rw [hc']
      exact ((Conn.quiet_sendClose _ _ _).trans (Conn.quiet_connectionClose _ _ _)).2
  by_cases h9 : opcode b = 9
  · have hc' : c' = _ := Conn.handleFrame_ping h9
    refine Or.inr (Or.inl ⟨Or.inl h9, by rw [hc']; rfl, ?_⟩)
    rw [hc']
    exact (Quietly.append _ (silent_enqueue _)).trans (Quietly.call _ _ ⟨rfl, rfl⟩)
  by_cases h10 : opcode b = 10
  · have hc' : c' = _ := Conn.handleFrame_pong h10
    refine Or.inr (Or.inl ⟨Or.inr h10, by rw [hc']; rfl, ?_⟩)
    rw [hc']
    exact Quietly.call _ _ ⟨rfl, rfl⟩
  cases hfin : fin b with
  | false =>
      have hc' : c' = _ := Conn.handleFrame_fragment h8 h9 h10 hfin
      have hfragment : isFragment b = true := by simp [isFragment, hfin]
      refine Or.inr (Or.inr (Or.inl ⟨⟨h8, h9, h10⟩, rfl, ?_, ?_⟩))
      · rw [hc']
        simp [Conn.storeFragment, Conn.readMessage, hfragment, m]
      · rw [hc']
        rfl
  | true =>
      have hc' : c' = _ := Conn.handleFrame_final h8 h9 h10 hfin
      exact Or.inr (Or.inr (Or.inr ⟨⟨h8, h9, h10⟩, rfl, by rw [hc']; rfl, by rw [hc']; rfl⟩))

/-- The outstanding read is completed with as many bytes as it asked for. -/
theorem Reachable.received {c : Conn} (h : Reachable endpoint config c) (data : Bytes)
    {op : ReadOp} (hr : c.reading = some op) (hlen : data.length = op.size.toNat) :
    Reachable endpoint config (c.complete endpoint config true ⟨none, data⟩) := by
  have hallowed : Allowed c (.complete true ⟨none, data⟩) := ⟨op, hr, hlen.le, fun _ => hlen⟩
  exact Machine.Reach.step h hallowed

end Server

/-! ### The client -/

namespace Client

variable {callbacks : Callbacks} {config : Config}

/-- How many bytes the outstanding read takes to be in the buffer already. -/
def ReadOp.buffered : ReadOp → ℕ
  | .firstBytes numAdditionalBytes => numAdditionalBytes
  | .lengthBytes _ updatedNumAdditionalBytes => updatedNumAdditionalBytes
  | .content numAdditionalBytes => numAdditionalBytes

/-- The outstanding read knows how many bytes are buffered. -/
def Conn.Counted (c : Conn) : Prop :=
  ∀ op, c.reading = some op → op.buffered = c.inMessage.streambuf.length

/-- The pending fragments are as they were, and the log is extended quietly. -/
def Conn.Quiet (c c' : Conn) : Prop :=
  c'.fragmentedInMessage = c.fragmentedInMessage ∧ Quietly c.log c'.log

namespace Conn

theorem Quiet.refl (c : Conn) : c.Quiet c := ⟨rfl, Quietly.refl _⟩

theorem Quiet.trans {c c' c'' : Conn} (h : c.Quiet c') (h' : c'.Quiet c'') : c.Quiet c'' :=
  ⟨h'.1.trans h.1, h.2.trans h'.2⟩

theorem quiet_send (c : Conn) (outMessage : Bytes) (b : UInt8) : c.Quiet (c.send outMessage b) :=
  ⟨rfl, Quietly.append _ (silent_enqueue _)⟩

theorem quiet_sendClose (c : Conn) (status : ℤ) (reason : Bytes) :
    c.Quiet (c.sendClose status reason) := by
  unfold sendClose
  split
  · exact Quiet.refl c
  · exact ⟨rfl, Quietly.append _ (silent_enqueue _)⟩

theorem quiet_connectionClose (c : Conn) (status : ℤ) (reason : Bytes) :
    c.Quiet (c.connectionClose callbacks status reason) :=
  ⟨rfl, Quietly.call _ _ (silent_onClose _ _)⟩

theorem quiet_connectionError (c : Conn) (ec : ErrorCode) :
    c.Quiet (c.connectionError callbacks ec) :=
  ⟨rfl, Quietly.call _ _ (silent_onError _)⟩

theorem quiet_messageTooBig (c : Conn) : c.Quiet (c.messageTooBig callbacks) :=
  ((quiet_connectionError c _).trans (quiet_sendClose _ _ _)).trans (quiet_connectionClose _ _ _)

theorem quiet_readMessageContent (c : Conn) (k : ℕ) :
    c.Quiet (c.readMessageContent callbacks config k) := by
  unfold readMessageContent
  split
  · exact quiet_messageTooBig c
  · exact Quiet.refl c

theorem quiet_onFirstBytes (c : Conn) (k bytesTransferred : ℕ) :
    c.Quiet (c.onFirstBytes callbacks config k bytesTransferred) := by
  have hset : ∀ m, c.Quiet { c with inMessage := m } := fun _ => Quiet.refl c
  simp only [onFirstBytes]
  split
  · exact Quiet.refl c
  split
  · exact ((hset _).trans (quiet_sendClose _ _ _)).trans (quiet_connectionClose _ _ _)
  split
  · exact Quiet.refl c
  split
  · exact Quiet.refl c
  · exact (hset _).trans (quiet_readMessageContent _ _)

theorem quiet_onLengthBytes (c : Conn) (numBytes k : ℕ) :
    c.Quiet (c.onLengthBytes callbacks config numBytes k) := by
  have hset : ∀ m, c.Quiet { c with inMessage := m } := fun _ => Quiet.refl c
  exact (hset _).trans (quiet_readMessageContent _ _)

/-! The functions that end a connection issue no read. -/

@[simp] theorem reading_sendClose (c : Conn) (status : ℤ) (reason : Bytes) :
    (c.sendClose status reason).reading = c.reading := by
  unfold sendClose
  split <;> rfl

@[simp] theorem reading_connectionClose (c : Conn) (status : ℤ) (reason : Bytes) :
    (c.connectionClose callbacks status reason).reading = c.reading := rfl

@[simp] theorem reading_connectionError (c : Conn) (ec : ErrorCode) :
    (c.connectionError callbacks ec).reading = c.reading := rfl

@[simp] theorem reading_messageTooBig (c : Conn) :
    (c.messageTooBig callbacks).reading = c.reading := by
  simp [messageTooBig]

theorem counted_of_reading_none {c : Conn} (h : c.reading = none) : c.Counted := by
  intro op hop
  rw [h] at hop
  cases hop

theorem counted_readMessageContent {c : Conn} {k : ℕ} (hr : c.reading = none)
    (hk : k = c.inMessage.streambuf.length) :
    (c.readMessageContent callbacks config k).Counted := by
  unfold readMessageContent
  split
  · exact counted_of_reading_none (by simpa using hr)
  · intro op hop
    cases hop
    exact hk

/-- After the first two bytes have been taken out, `k - 2` bytes are left of the `k` buffered. -/
theorem counted_onFirstBytes {c : Conn} {k n : ℕ} (hr : c.reading = none)
    (hlen : c.inMessage.streambuf.length = max k 2) :
    (c.onFirstBytes callbacks config k n).Counted := by
  have hnext : (if k > 2 then k - 2 else 0) = (c.inMessage.streambuf.drop 2).length := by
    rw [List.length_drop, hlen]
    split <;> omega
  have hne : ¬ (n = 0 ∧ c.inMessage.streambuf.length = 0) := by
    rw [hlen]
    omega
  simp only [onFirstBytes, if_neg hne]
  split
  · exact counted_of_reading_none (by simpa using hr)
  split
  · intro op hop
    cases hop
    exact hnext
  split
  · intro op hop
    cases hop
    exact hnext
  · exact counted_readMessageContent hr hnext

theorem counted_onLengthBytes {c : Conn} {numBytes k : ℕ} (hr : c.reading = none)
    (hlen : c.inMessage.streambuf.length = max k numBytes) :
    (c.onLengthBytes callbacks config numBytes k).Counted := by
  refine counted_readMessageContent hr ?_
  simp only [List.length_drop, hlen]
  split <;> omega

end Conn

/-- A completed read leaves as many bytes as it needs, or as many as there were. -/
theorem length_streambuf_read {c : Conn} {op : ReadOp} {k : Completion UInt8 ErrorCode}
    (hc : c.Counted) (hr : c.reading = some op) (hk : k.Obeys (c.transferExactly op))
    (hec : k.ec = none) :
    (c.inMessage.streambuf ++ k.data).length = max op.buffered (match op with
      | .firstBytes _ => 2
      | .lengthBytes numBytes _ => numBytes
      | .content _ => c.inMessage.length.toNat) := by
  have hcount := hc op hr
  rw [List.length_append, hk.2 hec, ← hcount]
  cases op <;> simp only [Conn.transferExactly, ReadOp.buffered] <;> split <;> omega

/-- The frame that is in `in_message` when a content read is done: its payload has the announced
length, and the bytes after it are what the next read has buffered. -/
theorem onContent_eq {c : Conn} {k : ℕ}
    (hlen : c.inMessage.streambuf.length = max k c.inMessage.length.toNat) :
    ∃ payload next k', payload.length = c.inMessage.length.toNat ∧ next.streambuf.length = k' ∧
      c.inMessage.streambuf = payload ++ next.streambuf ∧
      c.onContent callbacks k =
        { c with inMessage := { c.inMessage with streambuf := payload } }.handleFrame callbacks
          next k' := by
  unfold Conn.onContent
  by_cases hk : k > c.inMessage.length.toNat
  · simp only [if_pos hk]
    refine ⟨_, _, _, ?_, ?_, ?_, rfl⟩
    · rw [List.length_take, hlen]
      omega
    · rw [List.length_drop, hlen]
      omega
    · exact (List.take_append_drop _ _).symm
  · simp only [if_neg hk]
    refine ⟨c.inMessage.streambuf, InMessage.empty, 0, ?_, rfl, ?_, rfl⟩
    · rw [hlen]
      omega
    · simp [InMessage.empty]

/-- **What one completion can do**: it is quiet, or a frame has been read. -/
theorem complete_cases {c : Conn} {op : ReadOp} {k : Completion UInt8 ErrorCode} (hc : c.Counted)
    (hr : c.reading = some op) (hk : k.Obeys (c.transferExactly op)) (lock : Bool) :
    (c.Quiet (c.complete callbacks config lock k) ∧
      (c.complete callbacks config lock k).Counted) ∨
    ∃ j payload next k', op = .content j ∧ lock = true ∧ k.ec = none ∧
      payload.length = c.inMessage.length.toNat ∧ next.streambuf.length = k' ∧
      c.inMessage.streambuf ++ k.data = payload ++ next.streambuf ∧
      c.complete callbacks config lock k =
        { c with
          reading := none
          inMessage := { c.inMessage with streambuf := payload } }.handleFrame callbacks next
            k' := by
  have hset : ∀ m, c.Quiet { c with reading := none, inMessage := m } := fun _ => Conn.Quiet.refl c
  have hnone : ∀ {c' : Conn}, c'.reading = none → c'.Counted := Conn.counted_of_reading_none
  simp only [Conn.complete, hr]
  cases lock with
  | false => exact Or.inl ⟨hset _, hnone rfl⟩
  | true =>
      simp only [Bool.not_true, Bool.false_eq_true, if_false]
      cases hec : k.ec with
      | some ec => exact Or.inl ⟨(hset _).trans (Conn.quiet_connectionError _ _), hnone rfl⟩
      | none =>
          have hlen := length_streambuf_read hc hr hk hec
          cases op with
          | firstBytes j =>
              exact Or.inl ⟨(hset _).trans (Conn.quiet_onFirstBytes _ _ _),
                Conn.counted_onFirstBytes rfl hlen⟩
          | lengthBytes n j =>
              exact Or.inl ⟨(hset _).trans (Conn.quiet_onLengthBytes _ _ _),
                Conn.counted_onLengthBytes rfl hlen⟩
          | content j =>
              obtain ⟨payload, next, k', hrest⟩ := @onContent_eq callbacks { c with
                reading := none
                inMessage := { c.inMessage with streambuf := c.inMessage.streambuf ++ k.data } }
                j hlen
              exact Or.inr ⟨j, payload, next, k', rfl, trivial, rfl, hrest⟩

/-- **What is done with a frame**, by its kind: close, ping or pong, fragment, final frame. -/
theorem handleFrame_cases (c : Conn) (next : InMessage) (k : ℕ) :
    let m := c.inMessage
    let b := m.finRsvOpcode
    let c' := c.handleFrame callbacks next k
    (opcode b = 8 ∧ c'.reading = c.reading ∧ Quietly (c.log ++ [.frame b m.streambuf]) c'.log) ∨
    ((opcode b = 9 ∨ opcode b = 10) ∧ c'.reading = some (.firstBytes k) ∧ c'.inMessage = next ∧
      c'.fragmentedInMessage = c.fragmentedInMessage ∧
      Quietly (c.log ++ [.frame b m.streambuf]) c'.log) ∨
    ((opcode b ≠ 8 ∧ opcode b ≠ 9 ∧ opcode b ≠ 10) ∧ fin b = false ∧
      c'.reading = some (.firstBytes k) ∧ c'.inMessage = next ∧
      c'.fragmentedInMessage = some (match c.fragmentedInMessage with
        | none => { m with finRsvOpcode := b ||| 0x80 }
        | some f => f.append m) ∧
      c'.log = c.log ++ [.frame b m.streambuf]) ∨
    ((opcode b ≠ 8 ∧ opcode b ≠ 9 ∧ opcode b ≠ 10) ∧ fin b = true ∧
      c'.reading = some (.firstBytes k) ∧ c'.inMessage = next ∧ c'.fragmentedInMessage = none ∧
      c'.log = c.log ++ [.frame b m.streambuf] ++
        if callbacks.onMessage then [.onMessage (match c.fragmentedInMessage with
          | none => m
          | some f => f.append m)] else []) := by
  intro m b c'
  by_cases h8 : opcode b = 8
  · have hc' : c' = _ := Conn.handleFrame_close h8
    refine Or.inl ⟨h8, ?_, ?_⟩
    · rw [hc']
      simp [Conn.frameDecoded]
    · rw [hc']
      exact ((Conn.quiet_sendClose _ _ _).trans (Conn.quiet_connectionClose _ _ _)).2
  by_cases h9 : opcode b = 9
  · have hc' : c' = _ := Conn.handleFrame_ping h9
    refine Or.inr (Or.inl ⟨Or.inl h9, by rw [hc']; rfl, by rw [hc']; rfl, by rw [hc']; rfl, ?_⟩)
    rw [hc']
    exact (Quietly.append _ (silent_enqueue _)).trans (Quietly.call _ _ ⟨rfl, rfl⟩)
  by_cases h10 : opcode b = 10
  · have hc' : c' = _ := Conn.handleFrame_pong h10
    refine Or.inr (Or.inl ⟨Or.inr h10, by rw [hc']; rfl, by rw [hc']; rfl, by rw [hc']; rfl, ?_⟩)
    rw [hc']
    exact Quietly.call _ _ ⟨rfl, rfl⟩
  cases hfin : fin b with
  | false =>
      have hc' : c' = _ := Conn.handleFrame_fragment h8 h9 h10 hfin
      exact Or.inr (Or.inr (Or.inl ⟨⟨h8, h9, h10⟩, rfl, by rw [hc']; rfl, by rw [hc']; rfl,
        by rw [hc']; rfl, by rw [hc']; rfl⟩))
  | true =>
      have hc' : c' = _ := Conn.handleFrame_final h8 h9 h10 hfin
      exact Or.inr (Or.inr (Or.inr ⟨⟨h8, h9, h10⟩, rfl, by rw [hc']; rfl, by rw [hc']; rfl,
        by rw [hc']; rfl, by rw [hc']; rfl⟩))

/-- **The count stays right**, whatever happens to the connection. -/
theorem Conn.Counted.act {c : Conn} (hc : c.Counted) {a : Act} (ha : Allowed c a) :
    (act callbacks config c a).Counted := by
  cases a with
  | send outMessage b => exact hc
  | sendClose status reason =>
      change (c.sendClose status reason).Counted
      unfold Conn.sendClose
      split <;> exact hc
  | complete lock k =>
      obtain ⟨op, hr, hk⟩ := ha
      rcases @complete_cases callbacks config c op k hc hr hk lock with ⟨-, h⟩ | h
      · exact h
      · obtain ⟨-, payload, next, k', -, -, -, -, hnext, -, heq⟩ := h
        have hfirst : ∀ {c' : Conn}, c'.reading = some (.firstBytes k') → c'.inMessage = next →
            c'.Counted := by
          intro c' hreading hmsg op hop
          rw [hreading] at hop
          cases hop
          rw [hmsg, hnext]
          rfl
        simp only [Client.act, heq]
        rcases @handleFrame_cases callbacks { c with
          reading := none
          inMessage := { c.inMessage with streambuf := payload } } next k' with
          ⟨-, h, -⟩ | ⟨-, h, h', -⟩ | ⟨-, -, h, h', -⟩ | ⟨-, -, h, h', -⟩
        · exact Conn.counted_of_reading_none h
        · exact hfirst h h'
        · exact hfirst h h'
        · exact hfirst h h'

/-- The outstanding read is completed with as many bytes as it asked for. -/
theorem reach_received {start : Conn → Prop} {c : Conn}
    (h : Machine.Reach (act callbacks config) Allowed start c) (data : Bytes) {op : ReadOp}
    (hr : c.reading = some op) (hlen : data.length = c.transferExactly op) :
    Machine.Reach (act callbacks config) Allowed start
      (c.complete callbacks config true ⟨none, data⟩) := by
  have hallowed : Allowed c (.complete true ⟨none, data⟩) := ⟨op, hr, hlen.le, fun _ => hlen⟩
  exact Machine.Reach.step h hallowed

theorem Reachable.received {c : Conn} (h : Reachable callbacks config c) (data : Bytes)
    {op : ReadOp} (hr : c.reading = some op) (hlen : data.length = c.transferExactly op) :
    Reachable callbacks config (c.complete callbacks config true ⟨none, data⟩) :=
  reach_received h data hr hlen

theorem counted_opened (rd : ℕ → Mask) (streambuf : Bytes) :
    (opened callbacks rd streambuf streambuf.length).Counted := by
  intro op hop
  cases hop
  rfl

end Client

end SimpleWeb
