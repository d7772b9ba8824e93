/-
**The size check of `read_message_content`.**

Both endpoints compare `length + fragmented length` with `max_message_size`, and the server then
asks for `4 + length` bytes; all of this is `std::size_t` arithmetic.  This module says, for every
length and every state, when the outcome is the one the numbers call for: when the check rejects
exactly the messages that are too long, and when the bytes of a frame are asked for in full.

The check goes wrong in three ways.  The sum wraps; the length of the pending fragments is added for a
control frame too; and on a client whose response had a line without a colon in its head, fragments
may hold more bytes than their length says.

Main definitions:

* `SimpleWeb.Server.Conn.messageBytes`, `SimpleWeb.Client.Conn.messageBytes` — how long the message
  of a frame would be, without wrapping;
* `SimpleWeb.CheckExact` — the condition on the numbers;
* `SimpleWeb.Server.Conn.DecodesReceived` — the payload loop decodes received bytes only.

Main results:

* `SimpleWeb.size_limit_exact_iff` — **when the size limit is exact**, on both endpoints;
* `SimpleWeb.Server.decodesReceived_iff` — **when a frame's bytes are all read** before they are
  decoded.
-/

import SimpleWeb.PendingLength

set_option relaxedAutoImplicit false
set_option autoImplicit false

namespace SimpleWeb

/-! ### The check, in numbers -/

/-- The condition on a frame of `length` bytes met with fragments of `pending` bytes whose length field
says `counted`.  For a data frame: the sum of the lengths does not wrap, and the limit is not between
that sum and the bytes there are.  For a control frame, a bound on what is counted: a frame within the
limit stays there together with it, or is carried beyond `2 ^ 64`; a frame above the limit is not. -/
def CheckExact (max counted pending length : ℕ) (control : Prop) : Prop :=
  (¬ control → length + counted < 2 ^ 64 ∧ ¬ (length + counted ≤ max ∧ max < length + pending)) ∧
  (control → (length ≤ max → counted ≤ max - length ∨ 2 ^ 64 - length ≤ counted) ∧
    (max < length → counted < 2 ^ 64 - length))

/-- What a limit below `2 ^ 64` makes of the wrapped sum, and of the true length.  That the pending
fragments are within the limit, and hold what they count, is what decides the wrapped cases. -/
theorem checkExact_iff {max counted pending length : ℕ} (hmax : max < 2 ^ 64)
    (hlength : length < 2 ^ 64) (hcounted : counted ≤ max) (hpending : counted ≤ pending)
    (control : Prop) [Decidable control] :
    (max < (length + counted) % 2 ^ 64 ↔ max < if control then length else pending + length) ↔
      CheckExact max counted pending length control := by
  unfold CheckExact
  by_cases hc : control
  · -- the limit is met by the frame alone, and compared with the sum
    simp only [hc, if_true, not_true_eq_false, false_implies, true_and, true_implies]
    omega
  · simp only [hc, if_false, not_false_eq_true, true_implies, false_implies, and_true]
    omega

/-- The comparison the code makes, with the pending length taken modulo `2 ^ 64`. -/
theorem sum_gt_iff (length max : UInt64) (pending : ℕ) :
    length + UInt64.ofNat pending > max ↔
      max.toNat < (length.toNat + pending) % 2 ^ 64 := by
  have hsum : (length + UInt64.ofNat pending).toNat = (length.toNat + pending) % 2 ^ 64 := by
    rw [UInt64.toNat_add, UInt64.toNat_ofNat', Nat.add_mod_mod]
  rw [gt_iff_lt, UInt64.lt_iff_toNat_lt, hsum]

/-- The comparison the code makes. -/
theorem sum_gt_toNat_iff (length max pending : UInt64) :
    length + pending > max ↔ max.toNat < (length.toNat + pending.toNat) % 2 ^ 64 := by
  rw [← sum_gt_iff, UInt64.ofNat_toNat]

/-! ### The server -/

namespace Server

variable {endpoint : Callbacks} {config : Config}

/-- The length of the message that a frame belongs to: a control frame is a message of its own. -/
def Conn.messageBytes (c : Conn) (length : UInt64) (b : UInt8) : ℕ :=
  if IsControl b then length.toNat else c.pendingBytes + length.toNat

/-- `read_message_content` takes the error path. -/
def Conn.Rejects (endpoint : Callbacks) (config : Config) (c : Conn) (length : UInt64)
    (b : UInt8) : Prop :=
  c.readMessageContent endpoint config length b = c.messageTooBig endpoint

/-- The error path issues no read, the other path does. -/
theorem rejects_iff {c : Conn} (hr : c.reading = none) (length : UInt64) (b : UInt8) :
    c.Rejects endpoint config length b ↔ length + c.fragmentedLength > config.maxMessageSize := by
  constructor
  · intro h
    by_contra hgt
    have hcontent : c.readMessageContent endpoint config length b =
        { c with reading := some (.content length b) } := if_neg hgt
    have hreading := congrArg Conn.reading (hcontent.symm.trans h)
    rw [Conn.reading_messageTooBig, hr] at hreading
    cases hreading
  · intro h
    exact if_pos h

end Server

/-! ### The client -/

namespace Client

variable {callbacks : Callbacks} {config : Config}

/-- The length of the message that a frame belongs to: a control frame is a message of its own. -/
def Conn.messageBytes (c : Conn) (length : UInt64) (b : UInt8) : ℕ :=
  if IsControl b then length.toNat else c.pendingBytes + length.toNat

/-- `read_message_content` takes the error path. -/
def Conn.Rejects (callbacks : Callbacks) (config : Config) (c : Conn) (k : ℕ) : Prop :=
  c.readMessageContent callbacks config k = c.messageTooBig callbacks

/-- The error path issues no read, the other path does. -/
theorem rejects_iff {c : Conn} (hr : c.reading = none) (k : ℕ) :
    c.Rejects callbacks config k ↔
      c.inMessage.length + c.fragmentedLength > config.maxMessageSize := by
  constructor
  · intro h
    by_contra hgt
    have hcontent : c.readMessageContent callbacks config k =
        { c with reading := some (.content k) } := if_neg hgt
    have hreading := congrArg Conn.reading (hcontent.symm.trans h)
    rw [Conn.reading_messageTooBig, hr] at hreading
    cases hreading
  · intro h
    exact if_pos h

end Client

/-! ### When the limit is exact -/

/-- **When the size limit is exact.**  In every state that is waiting for a frame's header or its
extended length, for every length and header byte: the frame is rejected exactly when its message is
too long if and only if the numbers satisfy `CheckExact`.  The states of the client are those behind
any response, with whatever head.  The pending fragments hold what their length field says, modulo
`2 ^ 64`, on the server, and on the client if the head of the response is regular.  The server passes
length and header byte as arguments, the client has them in `in_message`. -/
theorem size_limit_exact_iff (callbacks : Callbacks) (length : UInt64) (b : UInt8) :
    (∀ (config : Server.Config) (c : Server.Conn), Server.Reachable callbacks config c →
      c.reading ≠ none →
        c.fragmentedLength = UInt64.ofNat c.pendingBytes ∧ ∀ streambuf : Bytes,
          ({ c with reading := none, streambuf := streambuf }.Rejects callbacks config length b ↔
              config.maxMessageSize.toNat < c.messageBytes length b) ↔
            CheckExact config.maxMessageSize.toNat c.fragmentedLength.toNat c.pendingBytes
              length.toNat (IsControl b)) ∧
    (∀ (config : Client.Config) (sha1 : Bytes → Digest) (beyond : Bytes) (order : Order)
        (rd : ℕ → Mask) (nonce : Client.Nonce) (response : Bytes) (n : ℕ) (c₀ c : Client.Conn),
      endOfHead response = some n →
      Client.onResponse callbacks sha1 beyond order rd nonce response n = .ok c₀ →
      Machine.Reach (Client.act callbacks config) Client.Allowed (· = c₀) c → c.reading ≠ none →
        (RegularHead (response.take n) → c.fragmentedLength = UInt64.ofNat c.pendingBytes) ∧
        ∀ (streambuf : Bytes) (k : ℕ),
          ({ c with reading := none, inMessage := ⟨b, length, streambuf⟩ }.Rejects callbacks config
              k ↔ config.maxMessageSize.toNat < c.messageBytes length b) ↔
            CheckExact config.maxMessageSize.toNat c.fragmentedLength.toNat c.pendingBytes
              length.toNat (IsControl b)) := by
  constructor
  · intro config c hc hr
    have hright := Server.fragmentedLength_eq hc.sizes hr
    have hwithin := hc.within.pending hr
    refine ⟨hright, ?_⟩
    intro streambuf
    have hlength : Server.Conn.fragmentedLength
        { c with reading := none, streambuf := streambuf } = c.fragmentedLength := rfl
    have hpending : c.fragmentedLength.toNat ≤ c.pendingBytes := by
      rw [hright, UInt64.toNat_ofNat']
      exact Nat.mod_le _ _
    rw [Server.rejects_iff rfl, hlength, sum_gt_toNat_iff, Server.Conn.messageBytes]
    exact checkExact_iff config.maxMessageSize.toNat_lt length.toNat_lt
      (UInt64.le_iff_toNat_le.1 hwithin) hpending _
  · intro config sha1 beyond order rd nonce response n c₀ c hend hopen hreach hr
    have hwithin := (Client.within_of_reach hend hopen hreach).pending hr
    refine ⟨fun hregular => Client.fragmentedLength_of_reach hend hregular hopen hreach hr, ?_⟩
    intro streambuf k
    have hlength : Client.Conn.fragmentedLength
        { c with reading := none, inMessage := ⟨b, length, streambuf⟩ } = c.fragmentedLength := rfl
    rw [Client.rejects_iff rfl, hlength, sum_gt_toNat_iff, Client.Conn.messageBytes]
    exact checkExact_iff config.maxMessageSize.toNat_lt length.toNat_lt
      (UInt64.le_iff_toNat_le.1 hwithin.1) hwithin.2 _

/-- A server that has received `a`, the first fragment of a text. -/
def Server.afterFragment (config : Server.Config) : Server.Conn :=
  [[0x01, 0x81], [0, 0, 0, 0, 97]].foldl
    (fun c bytes => c.complete {} config true ⟨none, bytes⟩) (Server.opened {} [])

/-- A client that has received `a`, the first fragment of a text. -/
def Client.afterFragment (config : Client.Config) : Client.Conn :=
  [[0x01, 0x01], [97]].foldl
    (fun c bytes => c.complete {} config true ⟨none, bytes⟩)
    (Client.opened {} (fun _ _ => 0) [] 0)

theorem Server.reachable_afterFragment :
    Server.Reachable {} { maxMessageSize := 1 } (Server.afterFragment { maxMessageSize := 1 }) := by
  have hopened : Server.Reachable {} { maxMessageSize := 1 } (Server.opened {} []) :=
    Machine.Reach.init ⟨[], rfl⟩
  exact (hopened.received [0x01, 0x81] rfl rfl).received [0, 0, 0, 0, 97] rfl rfl

theorem Client.reach_afterFragment {start : Client.Conn → Prop}
    (h : start (Client.opened {} (fun _ _ => 0) [] 0)) :
    Machine.Reach (Client.act {} { maxMessageSize := 1 }) Client.Allowed start
      (Client.afterFragment { maxMessageSize := 1 }) := by
  have hopened : Machine.Reach (Client.act {} { maxMessageSize := 1 }) Client.Allowed start
      (Client.opened {} (fun _ _ => 0) [] 0) := Machine.Reach.init h
  exact Client.reach_received (Client.reach_received hopened [0x01, 0x01] rfl rfl) [97] rfl rfl

/-- The condition at work: one byte pending, and another one arriving as a data frame. -/
theorem size_limit_exact_iff_second_byte :
    (Server.Conn.Rejects {} { maxMessageSize := 1 }
        { Server.afterFragment { maxMessageSize := 1 } with reading := none, streambuf := [] } 1
        0x80 ↔
      1 < (Server.afterFragment { maxMessageSize := 1 }).messageBytes 1 0x80) ∧
    (Client.Conn.Rejects {} { maxMessageSize := 1 }
        { Client.afterFragment { maxMessageSize := 1 } with
          reading := none, inMessage := ⟨0x80, 1, []⟩ } 0 ↔
      1 < (Client.afterFragment { maxMessageSize := 1 }).messageBytes 1 0x80) := by
  have hcheck : CheckExact 1 1 1 1 (IsControl 0x80) := by
    refine ⟨fun _ => ⟨by decide, by decide⟩, fun h => absurd h (by decide)⟩
  constructor
  · exact (((size_limit_exact_iff {} 1 0x80).1 { maxMessageSize := 1 } _
      Server.reachable_afterFragment (by decide)).2 []).2 hcheck
  · exact (((size_limit_exact_iff {} 1 0x80).2 { maxMessageSize := 1 } calcSha1 [] .insertion
      (fun _ _ => 0) Client.sampleNonce Client.wholeAnswer _ _ _ (by decide +kernel)
      onResponse_wholeAnswer (Client.reach_afterFragment rfl) (fun h => by cases h)).2 [] 0).2 hcheck

/-! #### Where the limit is not exact -/

/-- A head with a line without a colon, and behind it one that starts as a fragment does. -/
def Client.fragmentAnswer : Bytes :=
  ResponseMessage.statusLine (ascii "1.1") (ascii "101 Switching Protocols") ++ 10 ::
    (HttpHeader.unlines [HttpHeader.fieldLine
        (ascii "Sec-WebSocket-Accept", ascii "jlUQLACuNU42uoMufLD0HDVk/ao=")] ++
      (ascii "X\r" ++ 10 :: ([0x02, 0x01] ++ ascii "bar: x\r\n\r\n")))

theorem Client.onResponse_fragmentAnswer :
    Client.onResponse {} calcSha1 [] .insertion (fun _ _ => 0) Client.sampleNonce
        Client.fragmentAnswer Client.fragmentAnswer.length =
      .ok (Client.opened {} (fun _ _ => 0) ([0x02, 0x01] ++ ascii "bar: x\r\n\r\n") 0) := by
  have hfields := @HttpHeader.parse_lines [HttpHeader.fieldLine
    (ascii "Sec-WebSocket-Accept", ascii "jlUQLACuNU42uoMufLD0HDVk/ao=")] (by decide)
    (ascii "X\r") (by decide) ([0x02, 0x01] ++ ascii "bar: x\r\n\r\n")
  rw [List.flatMap_singleton, HttpHeader.fieldOf_fieldLine (by decide)] at hfields
  have hparse : ResponseMessage.parse Client.fragmentAnswer {} = _ :=
    ResponseMessage.parse_response (by decide) (by decide) hfields {}
  have hopen := @Client.onResponse_open {} calcSha1 [] .insertion (fun _ _ => 0)
    Client.sampleNonce Client.fragmentAnswer _ Client.fragmentAnswer.length _ _ hparse (by decide)
    rfl _ Client.decode_wholeDigest rfl
  rw [Nat.sub_self] at hopen
  exact hopen

/-- With `max_message_size` one and one byte pending: a continuation of `2 ^ 64 - 1` bytes is let
through, since the sum wraps to zero, and a ping of one byte is rejected.  With `max_message_size` 13
and a pending fragment that says it has one byte and holds 13: another byte is let through. -/
theorem size_limit_not_exact :
    (∃ c, Server.Reachable {} { maxMessageSize := 1 } c ∧ c.reading = some .firstBytes ∧
      (¬ { c with reading := none }.Rejects {} { maxMessageSize := 1 } sizeMax 0x80 ∧
        1 < c.messageBytes sizeMax 0x80) ∧
      ({ c with reading := none }.Rejects {} { maxMessageSize := 1 } 1 0x89 ∧
        ¬ 1 < c.messageBytes 1 0x89)) ∧
    (∃ c, Client.Reachable {} { maxMessageSize := 1 } c ∧ c.reading = some (.firstBytes 0) ∧
      (¬ { c with reading := none, inMessage := ⟨0x80, sizeMax, []⟩ }.Rejects {}
          { maxMessageSize := 1 } 0 ∧
        1 < c.messageBytes sizeMax 0x80) ∧
      ({ c with reading := none, inMessage := ⟨0x89, 1, []⟩ }.Rejects {}
          { maxMessageSize := 1 } 0 ∧
        ¬ 1 < c.messageBytes 1 0x89)) ∧
    ∃ c₀ c, endOfHead Client.fragmentAnswer = some Client.fragmentAnswer.length ∧
      Client.onResponse {} calcSha1 [] .insertion (fun _ _ => 0) Client.sampleNonce
        Client.fragmentAnswer Client.fragmentAnswer.length = .ok c₀ ∧
      Machine.Reach (Client.act {} { maxMessageSize := 13 }) Client.Allowed (· = c₀) c ∧
      c.reading = some (.firstBytes 0) ∧
      ¬ { c with reading := none, inMessage := ⟨0x80, 1, []⟩ }.Rejects {}
          { maxMessageSize := 13 } 0 ∧
        13 < c.messageBytes 1 0x80 := by
  refine ⟨?_, ?_, ?_⟩
  · refine ⟨_, Server.reachable_afterFragment, rfl, ⟨?_, by decide⟩, ?_, by decide⟩
    · rw [Server.rejects_iff rfl]
      decide
    · rw [Server.rejects_iff rfl]
      decide
  · refine ⟨_, Client.reach_afterFragment ⟨_, [], rfl⟩, rfl, ⟨?_, by decide⟩, ?_, by decide⟩
    · rw [Client.rejects_iff rfl]
      decide
    · rw [Client.rejects_iff rfl]
      decide
  · have hstart : Machine.Reach (Client.act {} { maxMessageSize := 13 }) Client.Allowed
        (· = Client.opened {} (fun _ _ => 0) ([0x02, 0x01] ++ ascii "bar: x\r\n\r\n") 0)
        (Client.opened {} (fun _ _ => 0) ([0x02, 0x01] ++ ascii "bar: x\r\n\r\n") 0) :=
      Machine.Reach.init rfl
    have hheader := Client.reach_received hstart [0x80, 0x01] rfl rfl
    have hcontent := Client.reach_received hheader [122] rfl rfl
    refine ⟨_, _, by decide +kernel, Client.onResponse_fragmentAnswer, hcontent, rfl, ?_, by decide⟩
    rw [Client.rejects_iff rfl]
    decide

/-! ### The bytes of a frame -/

/-- Where there are enough bytes, `get` never meets the end. -/
theorem none_not_mem_payloadGets {n : ℕ} {s : Bytes} (h : n ≤ s.length) :
    none ∉ (payloadGets n s).1 := by
  have hsplit := payloadGets_append (s.take n) (s.drop n)
  rw [List.length_take, Nat.min_eq_left h, List.take_append_drop] at hsplit
  rw [hsplit]
  intro hmem
  obtain ⟨_, -, hnone⟩ := List.mem_map.1 hmem
  cases hnone

namespace Server

/-- When the content read of a frame of `length` bytes is outstanding: `4 + length` bytes, not
wrapped, have been asked for, and once they are there the payload loop gets nothing else. -/
def Conn.DecodesReceived (c : Conn) (length : UInt64) (b : UInt8) : Prop :=
  c.reading = some (.content length b) →
    (ReadOp.content length b).size.toNat = 4 + length.toNat ∧
    ∀ k : Completion UInt8 ErrorCode, k.Obeys (ReadOp.content length b).size.toNat → k.ec = none →
      k.data.length = 4 + length.toNat ∧
      none ∉ (payloadGets length.toNat ((c.streambuf ++ k.data).drop 4)).1

/-- **When a frame's bytes are all read before they are decoded**: the number of bytes to ask for
does not wrap, or the frame is rejected by the size check.  This is for every state in which
`read_message_content` is called, every limit and every length. -/
theorem decodesReceived_iff (endpoint : Callbacks) (config : Config) (c : Conn) (length : UInt64)
    (b : UInt8) :
    ({ c with reading := none }.readMessageContent endpoint config length b).DecodesReceived
        length b ↔
      length.toNat + 4 < 2 ^ 64 ∨
        config.maxMessageSize.toNat < (length.toNat + c.fragmentedLength.toNat) % 2 ^ 64 := by
  have hsize : (ReadOp.content length b).size.toNat = (4 + length.toNat) % 2 ^ 64 := by
    simp only [ReadOp.size, UInt64.toNat_add]
    rfl
  have hcheck : length + c.fragmentedLength > config.maxMessageSize ↔
      config.maxMessageSize.toNat < (length.toNat + c.fragmentedLength.toNat) % 2 ^ 64 :=
    sum_gt_toNat_iff _ _ _
  have hsame : Conn.fragmentedLength { c with reading := none } = c.fragmentedLength := rfl
  rw [← hcheck]
  unfold Conn.readMessageContent
  rw [hsame]
  by_cases hgt : length + c.fragmentedLength > config.maxMessageSize
  · -- the frame is rejected, and no content read is outstanding
    rw [if_pos hgt]
    constructor
    · intro _
      exact Or.inr hgt
    · intro _ hr
      rw [Conn.reading_messageTooBig] at hr
      cases hr
  · rw [if_neg hgt]
    constructor
    · intro h
      have hrequest := (h rfl).1
      rw [hsize] at hrequest
      exact Or.inl (by have := Nat.mod_lt (4 + length.toNat) (show 2 ^ 64 > 0 by omega); omega)
    · rintro (hlt | h)
      · have hfull : (4 + length.toNat) % 2 ^ 64 = 4 + length.toNat :=
          Nat.mod_eq_of_lt (by omega)
        rw [hfull] at hsize
        intro _
        refine ⟨hsize, ?_⟩
        intro k hk hec
        have hdata : k.data.length = 4 + length.toNat := (hk.2 hec).trans hsize
        refine ⟨hdata, none_not_mem_payloadGets ?_⟩
        simp only [List.length_drop, List.length_append, hdata]
        omega
      · exact absurd h hgt

/-- The header of a binary frame of `2 ^ 64 - 1` bytes, as a client may send it: three bytes are
asked for, and when they have come the payload loop reads past them. -/
theorem not_decodesReceived :
    ∃ c, Reachable {} {} c ∧ c.reading = some (.content sizeMax 0x82) ∧
      (ReadOp.content sizeMax 0x82).size = 3 ∧ ¬ c.DecodesReceived sizeMax 0x82 := by
  refine ⟨[[0x82, 0xff], [0xff, 0xff, 0xff, 0xff, 0xff, 0xff, 0xff, 0xff]].foldl
    (fun c bytes => c.complete {} {} true ⟨none, bytes⟩) (opened {} []), ?_, ?_, ?_, ?_⟩
  · have hopened : Reachable {} {} (opened {} []) := Machine.Reach.init ⟨[], rfl⟩
    exact (hopened.received [0x82, 0xff] rfl rfl).received
      [0xff, 0xff, 0xff, 0xff, 0xff, 0xff, 0xff, 0xff] rfl rfl
  · decide
  · decide
  · intro h
    have hrequest := (h (by decide)).1
    revert hrequest
    decide

end Server

end SimpleWeb
