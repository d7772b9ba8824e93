/-
**Bytes read ahead make no difference to the client.**

The handshake response may be read together with the beginning of what follows it.  These bytes are
in the buffer when `read_message` starts, and the client threads their number through its reads: each
asks for that much less, and a frame that ends inside the buffer leaves the rest to the next one.
Two clients on the same stream, with different numbers of bytes read ahead, are compared read by
read: what is buffered and what is still to come is together the same for both, and so is everything
else that matters.

Main definitions:

* `SimpleWeb.Client.unread` — the stream from the next unread byte on;
* `SimpleWeb.Client.SameStream` — two clients at the same position of the same stream.

Main results:

* `SimpleWeb.Client.sameStream_step` — clients at the same position stay at the same position;
* `SimpleWeb.Client.overread_independent` — **decoding does not depend on the bytes read ahead**.
-/

import SimpleWeb.Steps

set_option relaxedAutoImplicit false
set_option autoImplicit false

namespace SimpleWeb.Client

variable {callbacks : Callbacks} {config : Config}

/-! ### What a read needs -/

/-- The number of bytes that have to be in the buffer for a handler to run. -/
def needed (m : InMessage) : ReadOp → ℕ
  | .firstBytes _ => 2
  | .lengthBytes numBytes _ => numBytes
  | .content _ => m.length.toNat

/-- The saturating subtractions are truncated ones. -/
theorem transferExactly_eq (c : Conn) (op : ReadOp) :
    c.transferExactly op = needed c.inMessage op - op.buffered := by
  cases op <;> simp only [Conn.transferExactly, needed, ReadOp.buffered] <;> split <;> omega

/-- The same read with nothing buffered. -/
def ReadOp.unbuffered : ReadOp → ReadOp
  | .firstBytes _ => .firstBytes 0
  | .lengthBytes numBytes _ => .lengthBytes numBytes 0
  | .content _ => .content 0

/-- What is known of the frame while a read is outstanding. -/
def header (m : InMessage) : ReadOp → InMessage
  | .firstBytes _ => InMessage.empty
  | .lengthBytes _ _ => ⟨m.finRsvOpcode, 0, []⟩
  | .content _ => ⟨m.finRsvOpcode, m.length, []⟩

theorem needed_eq {m m' : InMessage} {op op' : ReadOp} (hop : op.unbuffered = op'.unbuffered)
    (hm : header m op = header m' op') : needed m op = needed m' op' := by
  cases op <;> cases op' <;> simp_all [ReadOp.unbuffered, header, needed]

/-! ### Clients at the same position -/

/-- The stream from the next unread byte on: what is buffered, and what is still to come. -/
def unread (p : Conn × Source UInt8 ErrorCode) : Bytes :=
  p.1.inMessage.streambuf ++ p.2.incoming

/-- Two clients at the same position of the same stream.  Both have stopped, or both are in the same
read; the fields of `in_message` that are not known yet may differ. -/
inductive SameStream : Conn × Source UInt8 ErrorCode → Conn × Source UInt8 ErrorCode → Prop
  | stopped {c c' : Conn} {m : InMessage} {source source' : Source UInt8 ErrorCode} :
      c.reading = none → c' = { c with inMessage := m } → SameStream (c, source) (c', source')
  | reading (c : Conn) (op op' : ReadOp) {m m' : InMessage} {incoming incoming' : Bytes}
      {ending : Option ErrorCode} :
      op.unbuffered = op'.unbuffered → header m op = header m' op' →
      m.streambuf ++ incoming = m'.streambuf ++ incoming' →
      op.buffered = m.streambuf.length → op'.buffered = m'.streambuf.length →
      SameStream ({ c with reading := some op, inMessage := m }, ⟨incoming, ending⟩)
        ({ c with reading := some op', inMessage := m' }, ⟨incoming', ending⟩)

theorem SameStream.log_eq {p p' : Conn × Source UInt8 ErrorCode} (h : SameStream p p') :
    p.1.log = p'.1.log := by
  cases h with
  | stopped hr hc => rw [hc]
  | reading => rfl

theorem SameStream.position {p p' : Conn × Source UInt8 ErrorCode} (h : SameStream p p') :
    (p.1.reading = none ∧ p'.1.reading = none) ∨
      (p.1.reading.isSome ∧ p'.1.reading.isSome ∧ unread p = unread p') := by
  cases h with
  | stopped hr hc => exact Or.inl ⟨hr, by rw [hc]; exact hr⟩
  | reading _ _ _ _ _ hbytes => exact Or.inr ⟨rfl, rfl, hbytes⟩

/-! ### The handlers -/

section handlers

variable {c : Conn} {ending : Option ErrorCode} {rest rest' : Bytes}

/-- What ends a connection does not look at `in_message`. -/
theorem sendClose_inMessage (c : Conn) (m : InMessage) (status : ℤ) (reason : Bytes) :
    { c with inMessage := m }.sendClose status reason =
      { c.sendClose status reason with inMessage := m } := by
  unfold Conn.sendClose
  split <;> rfl

theorem sameStream_close (hr : c.reading = none) (m m' : InMessage) (status : ℤ) (reason : Bytes)
    (source source' : Source UInt8 ErrorCode) :
    SameStream
      (({ c with inMessage := m }.sendClose status reason).connectionClose callbacks status reason,
        source)
      (({ c with inMessage := m' }.sendClose status reason).connectionClose callbacks status reason,
        source') := by
  refine SameStream.stopped (m := m') (by simpa using hr) ?_
  rw [sendClose_inMessage c m, sendClose_inMessage c m']
  rfl

theorem sameStream_readMessageContent (hr : c.reading = none) {m m' : InMessage} {k k' : ℕ}
    (hb : m.finRsvOpcode = m'.finRsvOpcode) (hlength : m.length = m'.length)
    (hbytes : m.streambuf ++ rest = m'.streambuf ++ rest') (hk : k = m.streambuf.length)
    (hk' : k' = m'.streambuf.length) :
    SameStream
      ({ c with inMessage := m }.readMessageContent callbacks config k, ⟨rest, ending⟩)
      ({ c with inMessage := m' }.readMessageContent callbacks config k', ⟨rest', ending⟩) := by
  have hfragmented : ∀ m, Conn.fragmentedLength { c with inMessage := m } = c.fragmentedLength :=
    fun _ => rfl
  simp only [Conn.readMessageContent, hfragmented, hlength]
  split
  · exact sameStream_close (c := c.connectionError callbacks .messageSize) hr m m' _ _ _ _
  · exact SameStream.reading c (.content k) (.content k') rfl
      (by simp [header, hb, hlength]) hbytes hk hk'

/-- Both clients find the same two bytes at the front of their buffers. -/
theorem sameStream_onFirstBytes (hr : c.reading = none) (m m' : InMessage) {s s' : Bytes}
    {j j' n n' : ℕ} (hbytes : s ++ rest = s' ++ rest') (hs : s.length = max j 2)
    (hs' : s'.length = max j' 2) :
    SameStream
      ({ c with inMessage := { m with streambuf := s } }.onFirstBytes callbacks config j n,
        ⟨rest, ending⟩)
      ({ c with inMessage := { m' with streambuf := s' } }.onFirstBytes callbacks config j' n',
        ⟨rest', ending⟩) := by
  obtain ⟨b, l, t, rfl⟩ : ∃ b l t, s = b :: l :: t := by
    match s, hs with
    | b :: l :: t, _ => exact ⟨b, l, t, rfl⟩
    | [_], h => simp only [List.length_singleton] at h; omega
    | [], h => simp only [List.length_nil] at h; omega
  obtain ⟨b', l', t', rfl⟩ : ∃ b l t, s' = b :: l :: t := by
    match s', hs' with
    | b :: l :: t, _ => exact ⟨b, l, t, rfl⟩
    | [_], h => simp only [List.length_singleton] at h; omega
    | [], h => simp only [List.length_nil] at h; omega
  simp only [List.cons_append, List.cons.injEq] at hbytes
  obtain ⟨rfl, rfl, hbytes⟩ := hbytes
  have hk : (if j > 2 then j - 2 else 0) = t.length := by
    simp only [List.length_cons] at hs
    split <;> omega
  have hk' : (if j' > 2 then j' - 2 else 0) = t'.length := by
    simp only [List.length_cons] at hs'
    split <;> omega
  simp only [Conn.onFirstBytes, List.length_cons, Nat.add_eq_zero_iff, one_ne_zero, and_false,
    if_false, List.getD_cons_zero, List.getD_cons_succ, List.drop_succ_cons, List.drop_zero]
  split
  · exact sameStream_close hr _ _ _ _ _ _
  split
  · exact SameStream.reading c (.lengthBytes 2 _) (.lengthBytes 2 _) rfl rfl hbytes hk hk'
  split
  · exact SameStream.reading c (.lengthBytes 8 _) (.lengthBytes 8 _) rfl rfl hbytes hk hk'
  · exact sameStream_readMessageContent hr rfl rfl hbytes hk hk'

/-- Both clients find the same extended length. -/
theorem sameStream_onLengthBytes (hr : c.reading = none) {m m' : InMessage} {s s' : Bytes}
    {numBytes j j' : ℕ} (hb : m.finRsvOpcode = m'.finRsvOpcode)
    (hbytes : s ++ rest = s' ++ rest') (hs : s.length = max j numBytes)
    (hs' : s'.length = max j' numBytes) :
    SameStream
      ({ c with inMessage := { m with streambuf := s } }.onLengthBytes callbacks config numBytes j,
        ⟨rest, ending⟩)
      ({ c with inMessage := { m' with streambuf := s' } }.onLengthBytes callbacks config numBytes
        j', ⟨rest', ending⟩) := by
  have htake : s.take numBytes = s'.take numBytes := by
    have h := congrArg (List.take numBytes) hbytes
    rwa [List.take_append_of_le_length (by omega), List.take_append_of_le_length (by omega)] at h
  have hdrop : s.drop numBytes ++ rest = s'.drop numBytes ++ rest' := by
    have h := congrArg (List.drop numBytes) hbytes
    rwa [List.drop_append_of_le_length (by omega), List.drop_append_of_le_length (by omega)] at h
  refine sameStream_readMessageContent hr hb (by simp only [htake]) hdrop ?_ ?_
  · simp only [List.length_drop, hs]
    split <;> omega
  · simp only [List.length_drop, hs']
    split <;> omega

/-- The same frame is handled alike, whatever is buffered behind it. -/
theorem sameStream_handleFrame (hr : c.reading = none) {next next' : InMessage}
    (hbytes : next.streambuf ++ rest = next'.streambuf ++ rest') :
    SameStream (c.handleFrame callbacks next next.streambuf.length, ⟨rest, ending⟩)
      (c.handleFrame callbacks next' next'.streambuf.length, ⟨rest', ending⟩) := by
  -- whatever else the frame has changed, the next frame is waited for
  have hnext : ∀ c' : Conn, SameStream
      ({ c' with inMessage := next }.readMessage next.streambuf.length, ⟨rest, ending⟩)
      ({ c' with inMessage := next' }.readMessage next'.streambuf.length, ⟨rest', ending⟩) := by
    intro c'
    exact SameStream.reading c' (.firstBytes _) (.firstBytes _) rfl rfl hbytes rfl rfl
  by_cases h8 : opcode c.inMessage.finRsvOpcode = 8
  · rw [Conn.handleFrame_close h8, Conn.handleFrame_close h8]
    exact sameStream_close (c := c.frameDecoded) hr _ _ _ _ _ _
  by_cases h9 : opcode c.inMessage.finRsvOpcode = 9
  · rw [Conn.handleFrame_ping h9, Conn.handleFrame_ping h9]
    exact hnext _
  by_cases h10 : opcode c.inMessage.finRsvOpcode = 10
  · rw [Conn.handleFrame_pong h10, Conn.handleFrame_pong h10]
    exact hnext _
  cases hfin : fin c.inMessage.finRsvOpcode with
  | false =>
      rw [Conn.handleFrame_fragment h8 h9 h10 hfin, Conn.handleFrame_fragment h8 h9 h10 hfin]
      exact hnext { c.frameDecoded with fragmentedInMessage := _ }
  | true =>
      rw [Conn.handleFrame_final h8 h9 h10 hfin, Conn.handleFrame_final h8 h9 h10 hfin]
      exact hnext { c.frameDecoded.call callbacks.onMessage (.onMessage _) with
        fragmentedInMessage := none }

/-- Both clients cut the same payload off their buffers. -/
theorem sameStream_onContent (hr : c.reading = none) {m m' : InMessage} {s s' : Bytes} {j j' : ℕ}
    (hb : m.finRsvOpcode = m'.finRsvOpcode) (hlength : m.length = m'.length)
    (hbytes : s ++ rest = s' ++ rest') (hs : s.length = max j m.length.toNat)
    (hs' : s'.length = max j' m'.length.toNat) :
    SameStream
      ({ c with inMessage := { m with streambuf := s } }.onContent callbacks j, ⟨rest, ending⟩)
      ({ c with inMessage := { m' with streambuf := s' } }.onContent callbacks j',
        ⟨rest', ending⟩) := by
  obtain ⟨payload, next, k, hlen, rfl, hsplit, heq⟩ :=
    @onContent_eq callbacks { c with inMessage := { m with streambuf := s } } j hs
  obtain ⟨payload', next', k', hlen', rfl, hsplit', heq'⟩ :=
    @onContent_eq callbacks { c with inMessage := { m' with streambuf := s' } } j' hs'
  simp only at hlen hlen' hsplit hsplit'
  rw [hsplit, hsplit', List.append_assoc, List.append_assoc] at hbytes
  obtain ⟨rfl, hrest⟩ := List.append_inj hbytes (by rw [hlen, hlen', hlength])
  rw [heq, heq']
  simp only [hb, hlength]
  exact sameStream_handleFrame (c := { c with inMessage := { m' with streambuf := payload } }) hr
    hrest

end handlers

/-! ### Steps and runs -/

/-- What the handler of a completed read does. -/
theorem sameStream_complete {c : Conn} {op op' : ReadOp} {m m' : InMessage}
    {incoming incoming' : Bytes} {ending : Option ErrorCode} (hop : op.unbuffered = op'.unbuffered)
    (hm : header m op = header m' op')
    (hbytes : m.streambuf ++ incoming = m'.streambuf ++ incoming')
    (hk : op.buffered = m.streambuf.length) (hk' : op'.buffered = m'.streambuf.length)
    (hneeded : needed m op - op.buffered ≤ incoming.length)
    (hneeded' : needed m' op' - op'.buffered ≤ incoming'.length) :
    SameStream
      (Conn.complete callbacks config { c with reading := some op, inMessage := m } true
        ⟨none, incoming.take (needed m op - op.buffered)⟩,
        ⟨incoming.drop (needed m op - op.buffered), ending⟩)
      (Conn.complete callbacks config { c with reading := some op', inMessage := m' } true
        ⟨none, incoming'.take (needed m' op' - op'.buffered)⟩,
        ⟨incoming'.drop (needed m' op' - op'.buffered), ending⟩) := by
  have hlen : (m.streambuf ++ incoming.take (needed m op - op.buffered)).length =
      max op.buffered (needed m op) := by
    rw [List.length_append, List.length_take]
    omega
  have hlen' : (m'.streambuf ++ incoming'.take (needed m' op' - op'.buffered)).length =
      max op'.buffered (needed m' op') := by
    rw [List.length_append, List.length_take]
    omega
  have hsplit : (m.streambuf ++ incoming.take (needed m op - op.buffered)) ++
      incoming.drop (needed m op - op.buffered) =
      (m'.streambuf ++ incoming'.take (needed m' op' - op'.buffered)) ++
        incoming'.drop (needed m' op' - op'.buffered) := by
    rwa [List.append_assoc, List.append_assoc, List.take_append_drop, List.take_append_drop]
  cases op with
  | firstBytes j =>
      cases op' with
      | firstBytes j' =>
          exact sameStream_onFirstBytes (c := { c with reading := none }) rfl m m' hsplit hlen hlen'
      | lengthBytes => cases hop
      | content => cases hop
  | lengthBytes n j =>
      cases op' with
      | firstBytes => cases hop
      | lengthBytes n' j' =>
          obtain rfl : n = n' := by simpa [ReadOp.unbuffered] using hop
          have hb : m.finRsvOpcode = m'.finRsvOpcode := by simpa [header] using hm
          exact sameStream_onLengthBytes (c := { c with reading := none }) rfl hb hsplit hlen hlen'
      | content => cases hop
  | content j =>
      cases op' with
      | firstBytes => cases hop
      | lengthBytes => cases hop
      | content j' =>
          obtain ⟨hb, hlength⟩ : m.finRsvOpcode = m'.finRsvOpcode ∧ m.length = m'.length := by
            simpa [header] using hm
          exact sameStream_onContent (c := { c with reading := none }) rfl hb hlength hsplit hlen
            hlen'

/-- **Clients at the same position stay at the same position.** -/
theorem sameStream_step {p p' : Conn × Source UInt8 ErrorCode} (h : SameStream p p') :
    Option.Rel SameStream ((reader callbacks config).step p)
      ((reader callbacks config).step p') := by
  cases h with
  | stopped hr hc =>
      rw [hc]
      simp only [Reader.step, reader_request, hr, Option.map_none]
      exact Option.Rel.none
  | @reading c op op' m m' incoming incoming' ending hop hm hbytes hk hk' =>
      have htotal := congrArg List.length hbytes
      have hneeded := needed_eq hop hm
      rw [List.length_append, List.length_append] at htotal
      simp only [Reader.step, reader_request, reader_complete, Option.map_some, transferExactly_eq]
      by_cases hle : needed m op - op.buffered ≤ incoming.length
      · have hle' : needed m' op' - op'.buffered ≤ incoming'.length := by omega
        rw [if_pos hle, if_pos hle']
        exact Option.Rel.some (sameStream_complete hop hm hbytes hk hk' hle hle')
      · have hle' : ¬ needed m' op' - op'.buffered ≤ incoming'.length := by omega
        rw [if_neg hle, if_neg hle']
        cases ending with
        | none => exact Option.Rel.none
        | some ec =>
            exact Option.Rel.some (SameStream.stopped
              (m := { m' with streambuf := m'.streambuf ++ incoming' }) rfl rfl)

/-- A client that starts with the first `k` bytes of a stream in its buffer, and one that starts
with none. -/
theorem sameStream_opened {rd : ℕ → Mask} {stream : Bytes} {ending : Option ErrorCode} {k : ℕ}
    (hk : k ≤ stream.length) :
    SameStream (opened callbacks rd (stream.take k) k, ⟨stream.drop k, ending⟩)
      (opened callbacks rd [] 0, ⟨stream, ending⟩) := by
  refine @SameStream.reading (opened callbacks rd [] 0) (.firstBytes k) (.firstBytes 0)
    ⟨0, 0, stream.take k⟩ ⟨0, 0, []⟩ _ _ _ rfl rfl ?_ ?_ rfl
  · exact List.take_append_drop k stream
  · exact (List.length_take_of_le hk).symm

/-- **Decoding does not depend on the bytes read ahead.**  A client that starts with the first `k`
bytes of a stream in its buffer, and one that starts with none, have done the same after any number
of reads: the same callbacks, the same frames put on the send queue, the same frames decoded.  Both
have stopped, or both have the same part of the stream before them. -/
theorem overread_independent (callbacks : Callbacks) (config : Config) (rd : ℕ → Mask)
    (stream : Bytes) (ending : Option ErrorCode) {k : ℕ} (hk : k ≤ stream.length) (n : ℕ) :
    let p := (reader callbacks config).run n
      (opened callbacks rd (stream.take k) k, ⟨stream.drop k, ending⟩)
    let p' := (reader callbacks config).run n (opened callbacks rd [] 0, ⟨stream, ending⟩)
    p.1.log = p'.1.log ∧
      ((p.1.reading = none ∧ p'.1.reading = none) ∨
        (p.1.reading.isSome ∧ p'.1.reading.isSome ∧ unread p = unread p')) := by
  intro p p'
  have hrun : SameStream p p' :=
    Reader.run_lockstep (fun _ _ h => sameStream_step h) n _ _ (sameStream_opened hk)
  exact ⟨hrun.log_eq, hrun.position⟩

/-- A text whose header and first byte have been read ahead. -/
theorem overread_independent_hi :
    ((reader {} {}).run 4 (opened {} (fun _ _ => 0) [0x81, 0x02, 104] 3, ⟨[105], none⟩)).1.log =
      ((reader {} {}).run 4 (opened {} (fun _ _ => 0) [] 0,
        ⟨[0x81, 0x02, 104, 105], none⟩)).1.log :=
  (overread_independent {} {} (fun _ _ => 0) [0x81, 0x02, 104, 105] none
    (show 3 ≤ 4 by omega) 4).1

end SimpleWeb.Client
