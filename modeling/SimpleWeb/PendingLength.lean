/-
**How long the pending fragments are, and how long they say they are.**

The size check adds the length field of the pending fragments to the length of a frame.  Every
fragment that is kept has passed that check, so the field never exceeds the limit.  It counts at most
the bytes that are pending: exactly those, modulo `2 ^ 64`, on the server, and on a client whose
response has a regular head; after another response header lines may be pending that nothing counts.

Main definitions:

* `SimpleWeb.Server.Conn.pendingBytes`, `SimpleWeb.Client.Conn.pendingBytes` — the bytes that are
  pending;
* `SimpleWeb.Server.Conn.Within`, `SimpleWeb.Client.Conn.Within` — the invariant.

Main results:

* `SimpleWeb.Server.Reachable.within` — every reachable connection of the server satisfies it;
* `SimpleWeb.Client.within_of_reach` — so does every connection of the client, **whatever the head of
  the response was**;
* `SimpleWeb.Client.fragmentedLength_of_reach` — where the bytes pending are counted right.
-/

import SimpleWeb.DeliveredSize
import SimpleWeb.HeadEnd

set_option relaxedAutoImplicit false
set_option autoImplicit false

namespace SimpleWeb

/-! ### The server -/

namespace Server

variable {endpoint : Callbacks} {config : Config}

/-- The payload bytes of the fragments received so far. -/
def Conn.pendingBytes (c : Conn) : ℕ :=
  match c.fragmentedInMessage with
  | some m => m.streambuf.length
  | none => 0

/-- The invariant: while the connection reads, its fragments are within the limit, and so they are
together with the frame whose content is read. -/
structure Conn.Within (config : Config) (c : Conn) : Prop where
  pending : c.reading ≠ none → c.fragmentedLength ≤ config.maxMessageSize
  content : ∀ length b, c.reading = some (.content length b) →
    length + c.fragmentedLength ≤ config.maxMessageSize

namespace Conn

theorem within_of_reading_none {c : Conn} (h : c.reading = none) : c.Within config :=
  ⟨fun hr => absurd h hr, fun _ _ hr => by rw [h] at hr; cases hr⟩

theorem within_readMessage {c : Conn} (h : c.fragmentedLength ≤ config.maxMessageSize) :
    c.readMessage.Within config :=
  ⟨fun _ => h, fun _ _ hr => by cases hr⟩

theorem within_readMessageContent {c : Conn} (hr : c.reading = none)
    (h : c.fragmentedLength ≤ config.maxMessageSize) (length : UInt64) (b : UInt8) :
    (c.readMessageContent endpoint config length b).Within config := by
  unfold readMessageContent
  split
  · exact within_of_reading_none (by simpa using hr)
  · next hle =>
      refine ⟨fun _ => h, ?_⟩
      rintro _ _ ⟨⟩
      exact UInt64.not_lt.1 hle

theorem within_onFirstBytes {c : Conn} (hr : c.reading = none)
    (h : c.fragmentedLength ≤ config.maxMessageSize) (n : ℕ) :
    (c.onFirstBytes endpoint config n).Within config := by
  simp only [onFirstBytes]
  split
  · exact within_readMessage h
  split
  · exact within_of_reading_none (by simpa using hr)
  split
  · exact ⟨fun _ => h, fun _ _ hr => by cases hr⟩
  split
  · exact ⟨fun _ => h, fun _ _ hr => by cases hr⟩
  · exact within_readMessageContent (c := { c with streambuf := c.streambuf.drop 2 }) hr h _ _

/-- A fragment that is put behind the others has passed the check together with them. -/
theorem fragmentedLength_storeFragment {c : Conn} {length : UInt64} {b : UInt8} {payload : Bytes}
    (h : c.fragmentedLength ≤ config.maxMessageSize)
    (hcheck : length + c.fragmentedLength ≤ config.maxMessageSize) :
    ((c.frameDecoded b payload).storeFragment b (c.inMessage length b payload)).fragmentedLength ≤
      config.maxMessageSize := by
  unfold fragmentedLength at h hcheck ⊢
  unfold storeFragment inMessage
  dsimp only [frameDecoded]
  cases hb : isFragment b with
  | false => exact h
  | true =>
      cases hp : c.fragmentedInMessage with
      | none => simpa [hp] using hcheck
      | some m => simpa [hp, UInt64.add_comm] using hcheck

/-- What is done with a frame keeps the invariant. -/
theorem within_handleFrame {c : Conn} (hr : c.reading = none) {length : UInt64}
    (h : c.fragmentedLength ≤ config.maxMessageSize)
    (hcheck : length + c.fragmentedLength ≤ config.maxMessageSize) (b : UInt8) (payload : Bytes) :
    (c.handleFrame endpoint length b payload).Within config := by
  have hstored := @fragmentedLength_storeFragment config c length b payload h hcheck
  by_cases h8 : opcode b = 8
  · rw [handleFrame_close h8]
    exact within_of_reading_none (by simpa [storeFragment, frameDecoded] using hr)
  by_cases h9 : opcode b = 9
  · rw [handleFrame_ping h9]
    exact within_readMessage hstored
  by_cases h10 : opcode b = 10
  · rw [handleFrame_pong h10]
    exact within_readMessage hstored
  cases hfin : fin b with
  | false =>
      rw [handleFrame_fragment h8 h9 h10 hfin]
      exact within_readMessage hstored
  | true =>
      rw [handleFrame_final h8 h9 h10 hfin]
      exact within_readMessage (show (0 : UInt64) ≤ _ from UInt64.zero_le)

/-- Whatever happens to the connection keeps the invariant. -/
theorem Within.act {c : Conn} (h : c.Within config) {a : Act} (ha : Allowed c a) :
    (act endpoint config c a).Within config := by
  cases a with
  | send outMessage b => exact ⟨h.pending, h.content⟩
  | sendClose status reason =>
      change (c.sendClose status reason).Within config
      unfold sendClose
      split
      · exact h
      · exact ⟨h.pending, h.content⟩
  | complete lock k =>
      obtain ⟨op, hr, -⟩ := ha
      have hpending : ∀ streambuf, fragmentedLength { c with reading := none, streambuf := streambuf } ≤
          config.maxMessageSize := fun _ => h.pending (by rw [hr]; exact Option.some_ne_none op)
      simp only [Server.act, complete, hr]
      cases lock with
      | false => exact within_of_reading_none rfl
      | true =>
          simp only [Bool.not_true, Bool.false_eq_true, if_false]
          cases k.ec with
          | some ec => exact within_of_reading_none rfl
          | none =>
              cases op with
              | firstBytes => exact within_onFirstBytes rfl (hpending _) _
              | lengthBytes n b => exact within_readMessageContent rfl (hpending _) _ _
              | content length b =>
                  exact within_handleFrame rfl (hpending _) (h.content length b hr) b _

end Conn

/-- **Every reachable connection satisfies the invariant.** -/
theorem Reachable.within {c : Conn} (h : Reachable endpoint config c) : c.Within config := by
  refine @Machine.Reach.invariant _ _ _ _ _ (Conn.Within config) ?_ (fun _ _ hc ha => hc.act ha) c h
  rintro _ ⟨streambuf, rfl⟩
  exact Conn.within_readMessage (show (0 : UInt64) ≤ _ from UInt64.zero_le)

/-- In a reachable state the length of the pending message is that of its buffer. -/
theorem fragmentedLength_eq {c : Conn} (h : Sizes c.log c.live) (hr : c.reading ≠ none) :
    c.fragmentedLength = UInt64.ofNat c.pendingBytes := by
  obtain ⟨op, hop⟩ := Option.ne_none_iff_exists'.1 hr
  rw [Conn.live_of_reading hop] at h
  unfold Conn.fragmentedLength Conn.pendingBytes
  cases hp : c.fragmentedInMessage with
  | none => rfl
  | some m => exact (h.pending m hp).length_eq

end Server

/-! ### The client -/

namespace Client

variable {callbacks : Callbacks} {config : Config}

/-- The payload bytes of the fragments received so far. -/
def Conn.pendingBytes (c : Conn) : ℕ :=
  match c.fragmentedInMessage with
  | some m => m.streambuf.length
  | none => 0

/-- The invariant: while the connection reads, the bytes that it takes to be buffered are; its
fragments are within the limit, and so they are together with the frame whose content is read; and
they hold the bytes that they count. -/
structure Conn.Within (config : Config) (c : Conn) : Prop where
  buffered : ∀ op, c.reading = some op → op.buffered ≤ c.inMessage.streambuf.length
  pending : c.reading ≠ none → c.fragmentedLength ≤ config.maxMessageSize ∧
    c.fragmentedLength.toNat ≤ c.pendingBytes
  content : ∀ k, c.reading = some (.content k) →
    c.inMessage.length + c.fragmentedLength ≤ config.maxMessageSize

namespace Conn

theorem within_of_reading_none {c : Conn} (h : c.reading = none) : c.Within config := by
  have hno : ∀ op, c.reading ≠ some op := by simp [h]
  exact ⟨fun op hr => absurd hr (hno op), fun hr => absurd h hr, fun k hr => absurd hr (hno _)⟩

/-- A read that is not one of a content. -/
theorem within_of_reading {c : Conn} {op : ReadOp} (hr : c.reading = some op)
    (hop : ∀ k, op ≠ .content k) (hbuffered : op.buffered ≤ c.inMessage.streambuf.length)
    (h : c.fragmentedLength ≤ config.maxMessageSize ∧
      c.fragmentedLength.toNat ≤ c.pendingBytes) : c.Within config := by
  refine ⟨?_, fun _ => h, ?_⟩
  · intro op' hop'
    rw [← Option.some.inj (hr.symm.trans hop')]
    exact hbuffered
  · intro k hk
    exact absurd (Option.some.inj (hr.symm.trans hk)) (hop k)

theorem within_readMessageContent {c : Conn} {k : ℕ} (hr : c.reading = none)
    (hbuffered : k ≤ c.inMessage.streambuf.length)
    (h : c.fragmentedLength ≤ config.maxMessageSize ∧
      c.fragmentedLength.toNat ≤ c.pendingBytes) :
    (c.readMessageContent callbacks config k).Within config := by
  unfold readMessageContent
  split
  · exact within_of_reading_none (by simpa using hr)
  · next hle =>
      refine ⟨?_, fun _ => h, ?_⟩
      · rintro _ ⟨⟩
        exact hbuffered
      · rintro _ ⟨⟩
        exact UInt64.not_lt.1 hle

theorem within_onFirstBytes {c : Conn} {k n : ℕ} (hr : c.reading = none)
    (hbuffered : k ≤ c.inMessage.streambuf.length)
    (h : c.fragmentedLength ≤ config.maxMessageSize ∧
      c.fragmentedLength.toNat ≤ c.pendingBytes) :
    (c.onFirstBytes callbacks config k n).Within config := by
  have hnext : (if k > 2 then k - 2 else 0) ≤ (c.inMessage.streambuf.drop 2).length := by
    rw [List.length_drop]
    split <;> omega
  simp only [onFirstBytes]
  split
  · exact @within_of_reading _ _ (.firstBytes 0) rfl (by simp) (Nat.zero_le _) h
  split
  · exact within_of_reading_none (by simpa using hr)
  split
  · exact within_of_reading rfl (by simp) hnext h
  split
  · exact within_of_reading rfl (by simp) hnext h
  · exact within_readMessageContent hr hnext h

theorem within_onLengthBytes {c : Conn} {numBytes k : ℕ} (hr : c.reading = none)
    (hbuffered : k ≤ c.inMessage.streambuf.length)
    (h : c.fragmentedLength ≤ config.maxMessageSize ∧
      c.fragmentedLength.toNat ≤ c.pendingBytes) :
    (c.onLengthBytes callbacks config numBytes k).Within config := by
  refine within_readMessageContent hr ?_ h
  simp only [List.length_drop]
  split <;> omega

/-- A fragment that is put behind the others has passed the check together with them, and has the
bytes it says it has. -/
theorem fragmentedLength_append {c : Conn} {m : InMessage}
    (h : c.fragmentedLength.toNat ≤ c.pendingBytes)
    (hcheck : m.length + c.fragmentedLength ≤ config.maxMessageSize)
    (hlen : m.length.toNat ≤ m.streambuf.length) {c' : Conn}
    (hc' : c'.fragmentedInMessage = some (match c.fragmentedInMessage with
      | none => { m with finRsvOpcode := m.finRsvOpcode ||| 0x80 }
      | some f => f.append m)) :
    c'.fragmentedLength ≤ config.maxMessageSize ∧ c'.fragmentedLength.toNat ≤ c'.pendingBytes := by
  unfold fragmentedLength pendingBytes at h ⊢
  unfold fragmentedLength at hcheck
  rw [hc']
  cases hp : c.fragmentedInMessage with
  | none =>
      rw [hp] at hcheck
      exact ⟨by simpa using hcheck, hlen⟩
  | some f =>
      rw [hp] at h hcheck
      dsimp only at h hcheck
      refine ⟨by simpa [InMessage.append, UInt64.add_comm] using hcheck, ?_⟩
      have hsum : (f.length + m.length).toNat ≤ f.length.toNat + m.length.toNat := by
        rw [UInt64.toNat_add]
        exact Nat.mod_le _ _
      simp only [InMessage.append, List.length_append]
      omega

/-- What is done with a frame keeps the invariant. -/
theorem within_handleFrame {c : Conn} (hr : c.reading = none)
    (h : c.fragmentedLength ≤ config.maxMessageSize ∧ c.fragmentedLength.toNat ≤ c.pendingBytes)
    (hcheck : c.inMessage.length + c.fragmentedLength ≤ config.maxMessageSize)
    (hlen : c.inMessage.length.toNat ≤ c.inMessage.streambuf.length) {next : InMessage} {k : ℕ}
    (hnext : k ≤ next.streambuf.length) :
    (c.handleFrame callbacks next k).Within config := by
  have hbuffered : ∀ {c' : Conn}, c'.inMessage = next →
      (ReadOp.firstBytes k).buffered ≤ c'.inMessage.streambuf.length := by
    intro c' hc'
    rw [hc']
    exact hnext
  have hsame : ∀ {c' : Conn}, c'.fragmentedInMessage = c.fragmentedInMessage →
      c'.fragmentedLength ≤ config.maxMessageSize ∧
        c'.fragmentedLength.toNat ≤ c'.pendingBytes := by
    intro c' hc'
    unfold fragmentedLength pendingBytes at h ⊢
    rw [hc']
    exact h
  rcases @handleFrame_cases callbacks c next k with
    ⟨-, hnone, -⟩ | ⟨-, hread, hmsg, hp, -⟩ | ⟨-, -, hread, hmsg, hp, -⟩ | ⟨-, -, hread, hmsg, hp, -⟩
  · exact within_of_reading_none (hnone.trans hr)
  · exact within_of_reading hread (by simp) (hbuffered hmsg) (hsame hp)
  · exact within_of_reading hread (by simp) (hbuffered hmsg)
      (fragmentedLength_append h.2 hcheck hlen hp)
  · refine within_of_reading hread (by simp) (hbuffered hmsg) ?_
    unfold fragmentedLength pendingBytes
    rw [hp]
    exact ⟨UInt64.zero_le, le_rfl⟩

/-- The frame in `in_message` when a content read is done has at least the bytes it announces. -/
theorem within_onContent {c : Conn} {k : ℕ} (hr : c.reading = none)
    (h : c.fragmentedLength ≤ config.maxMessageSize ∧ c.fragmentedLength.toNat ≤ c.pendingBytes)
    (hcheck : c.inMessage.length + c.fragmentedLength ≤ config.maxMessageSize)
    (hlen : max k c.inMessage.length.toNat ≤ c.inMessage.streambuf.length) :
    (c.onContent callbacks k).Within config := by
  unfold onContent
  by_cases hk : k > c.inMessage.length.toNat
  · simp only [if_pos hk]
    refine within_handleFrame (c := { c with
      inMessage := { c.inMessage with
        streambuf := c.inMessage.streambuf.take c.inMessage.length.toNat } }) hr h hcheck ?_ ?_
    · simp only [List.length_take]
      omega
    · simp only [List.length_drop]
      omega
  · simp only [if_neg hk]
    exact within_handleFrame hr h hcheck (by omega) (Nat.zero_le _)

/-- A completed read leaves at least the bytes it needs, and those there were. -/
theorem Within.length_streambuf_read {c : Conn} (h : c.Within config) {op : ReadOp}
    (hr : c.reading = some op) {k : Completion UInt8 ErrorCode}
    (hk : k.Obeys (c.transferExactly op)) (hec : k.ec = none) :
    op.buffered ≤ (c.inMessage.streambuf ++ k.data).length ∧
      ∀ j, op = .content j →
        max j c.inMessage.length.toNat ≤ (c.inMessage.streambuf ++ k.data).length := by
  have hbuffered := h.buffered op hr
  rw [List.length_append]
  refine ⟨by omega, ?_⟩
  rintro j rfl
  have hread := hk.2 hec
  simp only [transferExactly, ReadOp.buffered] at hread hbuffered
  split at hread <;> omega

/-- Whatever happens to the connection keeps the invariant. -/
theorem Within.act {c : Conn} (h : c.Within config) {a : Act} (ha : Allowed c a) :
    (act callbacks config c a).Within config := by
  cases a with
  | send outMessage b => exact ⟨h.buffered, h.pending, h.content⟩
  | sendClose status reason =>
      change (c.sendClose status reason).Within config
      unfold sendClose
      split
      · exact h
      · exact ⟨h.buffered, h.pending, h.content⟩
  | complete lock k =>
      obtain ⟨op, hr, hk⟩ := ha
      have hpending := h.pending (by rw [hr]; exact Option.some_ne_none op)
      simp only [Client.act, complete, hr]
      cases lock with
      | false => exact within_of_reading_none rfl
      | true =>
          simp only [Bool.not_true, Bool.false_eq_true, if_false]
          cases hec : k.ec with
          | some ec => exact within_of_reading_none rfl
          | none =>
              obtain ⟨hbuffered, hcontent⟩ := h.length_streambuf_read hr hk hec
              cases op with
              | firstBytes j => exact within_onFirstBytes rfl hbuffered hpending
              | lengthBytes n j => exact within_onLengthBytes rfl hbuffered hpending
              | content j =>
                  exact within_onContent rfl hpending (h.content j hr) (hcontent j rfl)

end Conn

/-- **What the parser leaves of a response holds at least what is behind its head**, so that the
bytes counted there are in the buffer. -/
theorem length_parse_rest {response : Bytes} {n : ℕ} (hend : endOfHead response = some n)
    {out out' : ResponseMessage} {rest : Bytes}
    (h : ResponseMessage.parse response out = .ok (true, out', rest)) :
    response.length - n ≤ rest.length := by
  obtain ⟨first, ls, -, hfirst, hls, heq⟩ := lines_head hend
  rw [heq] at h
  obtain ⟨fields, hfields⟩ := ResponseMessage.parse_rest hfirst h
  rw [← List.length_drop]
  by_cases hcolon : ∀ l ∈ ls, 58 ∈ l
  · rw [(HttpHeader.parse_rest_iff hls hfields).2 hcolon]
  · obtain ⟨before, line, after, -, -, hstops⟩ := HttpHeader.parse_stops hls hcolon
    obtain rfl := (Prod.mk.inj (Except.ok.inj (hfields.symm.trans (hstops _)))).2
    simp only [List.length_append, List.length_cons]
    omega

variable {sha1 : Bytes → Digest} {beyond : Bytes} {order : Order} {rd : ℕ → Mask} {nonce : Nonce}
  {response : Bytes} {n : ℕ} {c₀ c : Conn}

/-- **Every connection of the client satisfies the invariant**, whatever the head of its response. -/
theorem within_of_reach (hend : endOfHead response = some n)
    (hopen : onResponse callbacks sha1 beyond order rd nonce response n = .ok c₀)
    (h : Machine.Reach (act callbacks config) Allowed (· = c₀) c) : c.Within config := by
  refine @Machine.Reach.invariant _ _ _ _ _ (Conn.Within config) ?_ (fun _ _ hc ha => hc.act ha) c h
  rintro _ rfl
  rcases @onResponse_cases callbacks sha1 beyond order rd nonce response n with
    ⟨c', ec, -, hr, heq⟩ | ⟨fault, heq⟩ | ⟨head, rest, hparse, heq⟩
  · obtain rfl := Except.ok.inj (hopen.symm.trans heq)
    exact Conn.within_of_reading_none hr
  · rw [heq] at hopen
    cases hopen
  · obtain rfl := Except.ok.inj (hopen.symm.trans heq)
    exact Conn.within_of_reading rfl (by simp) (length_parse_rest hend hparse)
      ⟨UInt64.zero_le, le_rfl⟩

/-- **Behind a regular head the bytes pending are counted right.** -/
theorem fragmentedLength_of_reach (hend : endOfHead response = some n)
    (hregular : RegularHead (response.take n))
    (hopen : onResponse callbacks sha1 beyond order rd nonce response n = .ok c₀)
    (h : Machine.Reach (act callbacks config) Allowed (· = c₀) c) (hr : c.reading ≠ none) :
    c.fragmentedLength = UInt64.ofNat c.pendingBytes := by
  have hsizes : Sizes c.log c.live := by
    refine sizes_of_reach ?_ h
    rintro _ rfl
    exact sizes_onResponse hend hregular hopen
  obtain ⟨op, hop⟩ := Option.ne_none_iff_exists'.1 hr
  rw [Conn.live_of_reading hop] at hsizes
  unfold Conn.fragmentedLength Conn.pendingBytes
  cases hp : c.fragmentedInMessage with
  | none => rfl
  | some m => exact (hsizes.pending m hp).length_eq

end Client

end SimpleWeb
