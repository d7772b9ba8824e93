/-
**Control frames, one at a time.**

What the two read loops do with one ping, pong or close frame, in any state of the connection in
which the content of the frame is what is read next.  The server puts the payload of every frame that
lacks FIN into the fragmented message, before it looks at the opcode; the client looks at the opcode
first.  Both answer a close frame with `send_close`, which writes two bytes of status whether there
was a status or not.

Main definitions:

* `SimpleWeb.Server.Conn.Receives`, `SimpleWeb.Client.Conn.Receives` — the frame whose content has
  been read;
* `SimpleWeb.Undisturbed` — the fragmented message is what it was, and a ping is answered with its
  own payload;
* `SimpleWeb.Echoed` — a close frame is answered with its own payload, and `on_close` is told what it
  says.

Main results:

* `SimpleWeb.undisturbed_iff` — **when exactly a ping or pong disturbs nothing**;
* `SimpleWeb.echoed_iff` — **when exactly a close frame is echoed**.
-/

import SimpleWeb.CloseHandshake

set_option relaxedAutoImplicit false
set_option autoImplicit false

namespace SimpleWeb

/-! ### What is put on the send queue determines the message -/

/-- How many bytes of length follow the first, which says so. -/
def extendedWidth (lengthByte : UInt8) : ℕ :=
  if lengthByte &&& 127 = 127 then 8 else if lengthByte &&& 127 = 126 then 2 else 0

/-- Behind headers of the announced size, equal strings are equal. -/
theorem eq_of_header_append {header header' x y : Bytes}
    (hsize : header.length = 2 + extendedWidth (header.getD 1 0))
    (hsize' : header'.length = 2 + extendedWidth (header'.getD 1 0))
    (h : header ++ x = header' ++ y) : header = header' ∧ x = y := by
  have hbyte : header.getD 1 0 = header'.getD 1 0 := by
    have hget := congrArg (fun s => s.getD 1 0) h
    simpa only [List.getD_append _ _ _ _ (show 1 < header.length by omega),
      List.getD_append _ _ _ _ (show 1 < header'.length by omega)] using hget
  exact List.append_inj h (by rw [hsize, hsize', hbyte])

@[simp] theorem length_putLength (length : UInt64) (w : ℕ) : (putLength length w).length = w := by
  induction w with
  | zero => rfl
  | succ w ih => rw [putLength, List.length_cons, ih]

/-- A short length announces no further bytes, with or without the mask bit. -/
theorem extendedWidth_short {length : UInt64} (h : ¬ length ≥ 126) :
    extendedWidth length.toUInt8 = 0 ∧ extendedWidth (length.toUInt8 + 128) = 0 := by
  have hall : ∀ n < 126, extendedWidth (UInt64.ofNat n).toUInt8 = 0 ∧
      extendedWidth ((UInt64.ofNat n).toUInt8 + 128) = 0 := by decide +kernel
  have hlt : length.toNat < 126 := by
    rw [ge_iff_le, UInt64.le_iff_toNat_le] at h
    simpa using h
  simpa only [UInt64.ofNat_toNat] using hall length.toNat hlt

theorem Server.length_outHeader (length : UInt64) (b : UInt8) :
    (outHeader length b).length = 2 + extendedWidth ((outHeader length b).getD 1 0) := by
  unfold outHeader
  split
  · split <;> simp <;> decide
  · next h => simp [(extendedWidth_short h).1]

theorem Client.length_outHeader (length : UInt64) (b : UInt8) :
    (outHeader length b).length = 2 + extendedWidth ((outHeader length b).getD 1 0) := by
  unfold outHeader
  split
  · split <;> simp <;> decide
  · next h => simp [(extendedWidth_short h).2]

theorem Server.outData_inj {x y : Bytes} {b : UInt8} : outData x b = outData y b ↔ x = y := by
  constructor
  · intro h
    exact (eq_of_header_append (length_outHeader _ _) (length_outHeader _ _) h).2
  · rintro rfl
    rfl

theorem Client.outData_inj {mask : Mask} {x y : Bytes} {b : UInt8} :
    outData mask x b = outData mask y b ↔ x = y := by
  constructor
  · intro h
    simp only [outData, List.append_assoc] at h
    have hbody := (eq_of_header_append (length_outHeader _ _) (length_outHeader _ _) h).2
    have hmasked : ∀ z : Bytes, (unmask mask z.length z).1 = Octets.xorCycle mask z := by
      intro z
      have hz := unmask_append mask z []
      rw [List.append_nil] at hz
      rw [hz]
    have hpayload := List.append_cancel_left hbody
    rw [hmasked, hmasked] at hpayload
    simpa using congrArg (Octets.xorCycle mask) hpayload
  · rintro rfl
    rfl

/-! ### Properties of a frame that has been processed -/

/-- The fragmented message is the same before and after a frame, and if the frame is a ping, a pong
with its payload is put on the send queue. -/
def Undisturbed (before after : Option InMessage) (log log' : List Event) (b : UInt8)
    (pong : Bytes) : Prop :=
  after = before ∧ (opcode b = 9 → enqueued log' = enqueued log ++ [pong])

/-- What the payload of a close frame says. -/
def closeContent : Bytes → ℤ × Bytes
  | byte₁ :: byte₂ :: reason => ((byte₁.toNat * 256 + byte₂.toNat : ℕ), reason)
  | p => (0, p)

/-- The close frame is answered with its own payload, unless that is too short for a status, and
`on_close` is told what it says. -/
def Echoed (onClose : Bool) (log log' : List Event) (p echo : Bytes) : Prop :=
  (p = [] ∨ 2 ≤ p.length → enqueued log' = enqueued log ++ [echo]) ∧
    (onClose = true → log'.filterMap Event.terminal? = log.filterMap Event.terminal? ++
      [.onClose (closeContent p).1 (closeContent p).2])

/-- A status that has been read is written as the two bytes that it was read from. -/
theorem closePayload_closeStatus {length : UInt64} (h : length ≥ 2) (byte₁ byte₂ : UInt8)
    (reason : Bytes) :
    closePayload (closeStatus length (byte₁ :: byte₂ :: reason)).1
        (closeStatus length (byte₁ :: byte₂ :: reason)).2 = byte₁ :: byte₂ :: reason := by
  have hsum : byte₁.toNat <<< 8 + byte₂.toNat = byte₁.toNat * 256 + byte₂.toNat := by
    rw [Nat.shiftLeft_eq]
  have hlt := byte₂.toNat_lt
  have hhigh : ((byte₁.toNat * 256 + byte₂.toNat : ℕ) : ℤ) >>> (8 : ℕ) = (byte₁.toNat : ℕ) := by
    rw [Int.shiftRight_eq_div_pow]
    omega
  have hlow : ((byte₁.toNat * 256 + byte₂.toNat : ℕ) : ℤ).tmod 256 = (byte₂.toNat : ℕ) := by
    rw [Int.tmod_eq_emod_of_nonneg (by omega)]
    omega
  have hofInt : ∀ b : UInt8, UInt8.ofInt (b.toNat : ℕ) = b := by
    intro b
    apply UInt8.toNat_inj.1
    rw [toNat_ofInt]
    exact Nat.mod_eq_of_lt b.toNat_lt
  simp only [closeStatus, if_pos h, istreamGet, getChar, Option.getD_some, hsum, closePayload, hhigh,
    hlow, hofInt]

/-- The status and the reason are read as what the payload says. -/
theorem closeStatus_eq_closeContent {p : Bytes} (h : p.length < 2 ^ 64) :
    closeStatus (UInt64.ofNat p.length) p = closeContent p := by
  match p with
  | [] => rfl
  | [_] => rfl
  | byte₁ :: byte₂ :: reason =>
      have hge : UInt64.ofNat (byte₁ :: byte₂ :: reason).length ≥ 2 := by
        rw [ofNat_ge_iff h]
        simp
      rw [closeStatus, if_pos hge]
      simp [istreamGet, getChar, closeContent, Nat.shiftLeft_eq]

/-- Reading the status of a close frame with payload `p` from a message with contents `q`: the echo
and the call are right for the payload itself, and wrong for an empty payload. -/
theorem echo_iff {p q : Bytes} (hp : p.length < 2 ^ 64) (hq : p.length ≤ q.length)
    (onClose : Bool) :
    ((p = [] ∨ 2 ≤ p.length → closePayload (closeStatus (UInt64.ofNat p.length) q).1
        (closeStatus (UInt64.ofNat p.length) q).2 = p) ∧
      (onClose = true → closeStatus (UInt64.ofNat p.length) q = closeContent p)) ↔
    p ≠ [] ∧ (q = p ∨ p.length = 1 ∧ onClose = false) := by
  match p with
  | [] => simp [closePayload]
  | [b] =>
      have hstatus : closeStatus (UInt64.ofNat [b].length) q = (0, q) := rfl
      rw [hstatus]
      cases onClose <;> simp [closeContent]
  | byte₁ :: byte₂ :: reason =>
      have hge : UInt64.ofNat (byte₁ :: byte₂ :: reason).length ≥ 2 := by
        rw [ofNat_ge_iff hp]
        simp
      obtain ⟨q₁, q₂, qs, rfl⟩ : ∃ q₁ q₂ qs, q = q₁ :: q₂ :: qs := by
        cases q with
        | nil => simp at hq
        | cons q₁ qs =>
            cases qs with
            | nil => simp at hq
            | cons q₂ qs => exact ⟨q₁, q₂, qs, rfl⟩
      rw [closePayload_closeStatus hge]
      constructor
      · rintro ⟨hecho, -⟩
        exact ⟨by simp, Or.inl (hecho (Or.inr (by simp)))⟩
      · rintro ⟨-, hq | ⟨hone, -⟩⟩
        · rw [hq]
          exact ⟨fun _ => rfl, fun _ => closeStatus_eq_closeContent hp⟩
        · simp at hone

/-- The log of a close frame with payload `p` that has been read as `q`: the answer is enqueued, and
`on_close` is called if it is set. -/
theorem echoed_of_log {onClose : Bool} {log log' : List Event} {p q answer echo : Bytes}
    (b : UInt8) (frame : Bytes) (hp : p.length < 2 ^ 64) (hq : p.length ≤ q.length)
    (hlog : log' = log ++ [.frame b frame] ++ [.enqueue answer] ++
      if onClose then [.onClose (closeStatus (UInt64.ofNat p.length) q).1
        (closeStatus (UInt64.ofNat p.length) q).2] else [])
    (hanswer : answer = echo ↔ closePayload (closeStatus (UInt64.ofNat p.length) q).1
      (closeStatus (UInt64.ofNat p.length) q).2 = p) :
    Echoed onClose log log' p echo ↔ p ≠ [] ∧ (q = p ∨ p.length = 1 ∧ onClose = false) := by
  rw [← echo_iff hp hq onClose, Echoed, hlog]
  refine and_congr (imp_congr_right fun _ => ?_) (imp_congr_right fun hset => ?_)
  · rw [← hanswer]
    cases onClose <;> simp [enqueued, Event.enqueued?, List.filterMap_cons]
  · simp [Event.terminal?, List.filterMap_cons, hset, Prod.ext_iff]

/-! ### The server -/

namespace Server

variable {endpoint : Callbacks} {config : Config}

namespace Conn

/-- The outstanding read has been completed, and what it read is the mask and the masked payload `p`
of a frame with header byte `b`.  Anything may be behind the frame. -/
def Receives (c : Conn) (k : Completion UInt8 ErrorCode) (b : UInt8) (p : Bytes) : Prop :=
  k.ec = none ∧ p.length < 2 ^ 64 ∧ c.reading = some (.content (UInt64.ofNat p.length) b) ∧
    ∃ (mask : Mask) (rest : Bytes),
      c.streambuf ++ k.data = List.ofFn mask ++ Octets.xorCycle mask p ++ rest

/-- What is in the fragmented message. -/
def fragmentedBytes (c : Conn) : Bytes :=
  match c.fragmentedInMessage with
  | none => []
  | some m => m.streambuf

variable {c : Conn} {k : Completion UInt8 ErrorCode} {b : UInt8} {p : Bytes}

theorem complete_receives (h : c.Receives k b p) :
    ∃ streambuf, c.complete endpoint config true k =
      { c with reading := none, streambuf := streambuf }.handleFrame endpoint
        (UInt64.ofNat p.length) b p := by
  obtain ⟨hec, hlen, hr, mask, rest, hbuffer⟩ := h
  refine ⟨rest, ?_⟩
  have htoNat : (UInt64.ofNat p.length).toNat = p.length := UInt64.toNat_ofNat_of_lt' hlen
  have htake : (c.streambuf ++ k.data).take 4 = List.ofFn mask := by
    rw [hbuffer, List.append_assoc, List.take_left' (by simp)]
  have hdrop : (c.streambuf ++ k.data).drop 4 = Octets.xorCycle mask p ++ rest := by
    rw [hbuffer, List.append_assoc, List.drop_left' (by simp)]
  have hloop : unmask mask p.length (Octets.xorCycle mask p ++ rest) = (p, rest) := by
    have := unmask_append mask (Octets.xorCycle mask p) rest
    rwa [Octets.length_xorCycle, Octets.xorCycle_xorCycle] at this
  simp only [complete, hr, hec, Bool.not_true, Bool.false_eq_true, if_false, onContent, htake,
    hdrop, Mask.ofBytes_ofFn, htoNat, hloop]

/-- Without FIN the payload is put behind what is in the fragmented message. -/
theorem streambuf_inMessage (length : UInt64) (hb : opcode b ≠ 0) :
    (c.inMessage length b p).streambuf = if fin b then p else c.fragmentedBytes ++ p := by
  have hfragment : isFragment b = !fin b := by simp [isFragment, hb]
  rw [inMessage, hfragment, fragmentedBytes]
  cases fin b <;> cases c.fragmentedInMessage <;> rfl

/-- The fragmented message is the same if the frame has FIN, or adds nothing to one that exists. -/
theorem storeFragment_inMessage_iff (length : UInt64) (hlength : p = [] → length = 0)
    (hb : opcode b ≠ 0) :
    (c.storeFragment b (c.inMessage length b p)).fragmentedInMessage = c.fragmentedInMessage ↔
      fin b = true ∨ p = [] ∧ c.fragmentedInMessage ≠ none := by
  have hfragment : isFragment b = !fin b := by simp [isFragment, hb]
  simp only [storeFragment, inMessage, hfragment]
  cases fin b with
  | true => simp
  | false =>
      cases c.fragmentedInMessage with
      | none => simp
      | some m =>
          obtain ⟨finRsvOpcode, mLength, streambuf⟩ := m
          constructor
          · intro h
            simp only [Bool.not_false, if_true, Option.some.injEq, InMessage.mk.injEq] at h
            exact Or.inr ⟨by simpa using h.2.2, by simp⟩
          · rintro (h | ⟨rfl, -⟩)
            · cases h
            · simp [hlength rfl]

/-- A ping or pong on the server. -/
theorem undisturbed_handleFrame (hb : opcode b = 9 ∨ opcode b = 10) (length : UInt64)
    (hlength : p = [] → length = 0) :
    Undisturbed c.fragmentedInMessage (c.handleFrame endpoint length b p).fragmentedInMessage c.log
        (c.handleFrame endpoint length b p).log b (outData p (b + 1)) ↔
      fin b = true ∨
        p = [] ∧ c.fragmentedInMessage ≠ none ∧ (opcode b = 9 → c.fragmentedBytes = []) := by
  have hzero : opcode b ≠ 0 := by
    intro h0
    rw [h0] at hb
    rcases hb with hb | hb <;> cases hb
  have hfragment := @storeFragment_inMessage_iff c b p length hlength hzero
  rw [Undisturbed]
  rcases hb with hb | hb
  · have hstored : (c.handleFrame endpoint length b p).fragmentedInMessage =
        (c.storeFragment b (c.inMessage length b p)).fragmentedInMessage := by
      rw [handleFrame_ping hb]
      rfl
    have hsent : enqueued (c.handleFrame endpoint length b p).log =
        enqueued c.log ++ [outData (c.inMessage length b p).streambuf (b + 1)] := by
      rw [handleFrame_ping hb]
      cases endpoint.onPing <;>
        simp [readMessage, call, send, frameDecoded, storeFragment, enqueued, Event.enqueued?,
          InMessage.string, List.filterMap_cons]
    rw [hstored, hfragment, hsent, List.append_cancel_left_eq, List.cons.injEq, outData_inj,
      streambuf_inMessage length hzero]
    cases fin b <;> simp [hb, and_assoc]
  · have hne : ¬ opcode b = 9 := by
      rw [hb]
      decide
    rw [handleFrame_pong hb]
    simp only [hne, false_implies, and_true]
    exact hfragment

/-- A close frame on the server. -/
theorem echoed_handleFrame (hb : opcode b = 8) (hclosed : c.closed = false)
    (hp : p.length < 2 ^ 64) :
    Echoed endpoint.onClose c.log (c.handleFrame endpoint (UInt64.ofNat p.length) b p).log p
        (outData p 136) ↔
      p ≠ [] ∧ (fin b = true ∨ c.fragmentedBytes = [] ∨ p.length = 1 ∧ endpoint.onClose = false) := by
  have hzero : opcode b ≠ 0 := by
    rw [hb]
    decide
  have hbody := @streambuf_inMessage c b p (UInt64.ofNat p.length) hzero
  have hbytes : (c.inMessage (UInt64.ofNat p.length) b p).streambuf = p ↔
      fin b = true ∨ c.fragmentedBytes = [] := by
    rw [hbody]
    cases fin b <;> simp
  have hle : p.length ≤ (c.inMessage (UInt64.ofNat p.length) b p).streambuf.length := by
    rw [hbody]
    split <;> simp
  rw [echoed_of_log b p hp hle ?_ outData_inj, hbytes, or_assoc]
  rw [handleFrame_close hb]
  simp [sendClose, connectionClose, call, send, frameDecoded, storeFragment, hclosed]

end Conn

end Server

/-! ### The client -/

namespace Client

variable {callbacks : Callbacks} {config : Config}

namespace Conn

/-- The outstanding read has been completed, and `in_message` begins with the payload `p` of the
frame whose header is in it.  What is behind the payload is `rest`. -/
def Receives (c : Conn) (k : Completion UInt8 ErrorCode) (p rest : Bytes) : Prop :=
  k.ec = none ∧ p.length = c.inMessage.length.toNat ∧ (∃ j, c.reading = some (.content j)) ∧
    c.inMessage.streambuf ++ k.data = p ++ rest

/-- The bytes behind the frame are known to be there, so that they are not taken for a part of it. -/
def Splits (c : Conn) (rest : Bytes) : Prop :=
  rest = [] ∨ ∃ j, c.reading = some (.content j) ∧ c.inMessage.length.toNat < j

variable {c : Conn} {k : Completion UInt8 ErrorCode} {p rest : Bytes}

theorem complete_receives (h : c.Receives k p rest) :
    ∃ q next k', c.complete callbacks config true k =
        { c with reading := none, inMessage := { c.inMessage with streambuf := q } }.handleFrame
          callbacks next k' ∧
      p <+: q ∧ (q = p ↔ c.Splits rest) := by
  obtain ⟨hec, hlen, ⟨j, hr⟩, hbuffer⟩ := h
  simp only [complete, hr, hec, Bool.not_true, Bool.false_eq_true, if_false, onContent, hbuffer]
  by_cases hj : j > c.inMessage.length.toNat
  · rw [if_pos hj]
    refine ⟨_, _, _, rfl, ?_, ?_⟩
    · rw [← hlen, List.take_left]
    · rw [← hlen, List.take_left]
      exact iff_of_true rfl (Or.inr ⟨j, hr, hj⟩)
  · rw [if_neg hj]
    refine ⟨p ++ rest, _, _, rfl, List.prefix_append p rest, ?_⟩
    rw [Splits, List.append_right_eq_self]
    refine ⟨Or.inl, ?_⟩
    rintro (hrest | ⟨j', hr', hj'⟩)
    · exact hrest
    · rw [hr] at hr'
      cases hr'
      exact absurd hj' hj

/-- A connection that has counted what it has buffered takes nothing for a part of a frame. -/
theorem Counted.splits (hc : c.Counted) (h : c.Receives k p rest)
    (hk : Allowed c (.complete true k)) : c.Splits rest := by
  obtain ⟨hec, hlen, ⟨j, hr⟩, hbuffer⟩ := h
  obtain ⟨op, hr', hobeys⟩ := hk
  have hread := length_streambuf_read hc hr' hobeys hec
  rw [hr] at hr'
  obtain rfl := Option.some.inj hr'
  by_cases hj : c.inMessage.length.toNat < j
  · exact Or.inr ⟨j, hr, hj⟩
  · refine Or.inl (List.length_eq_zero_iff.1 ?_)
    rw [hbuffer, List.length_append, hlen] at hread
    simp only [ReadOp.buffered] at hread
    omega

/-- A ping or pong on the client: the fragmented message is not touched. -/
theorem undisturbed_handleFrame {b : UInt8} (hm : c.inMessage.finRsvOpcode = b)
    (hb : opcode b = 9 ∨ opcode b = 10) (next : InMessage) (k' : ℕ) :
    Undisturbed c.fragmentedInMessage (c.handleFrame callbacks next k').fragmentedInMessage c.log
        (c.handleFrame callbacks next k').log b (outData (c.rd 0) p (b + 1)) ↔
      (opcode b = 9 → c.inMessage.streambuf = p) := by
  subst hm
  rw [Undisturbed]
  rcases hb with hb | hb
  · have hsent : enqueued (c.handleFrame callbacks next k').log = enqueued c.log ++
        [outData (c.rd 0) c.inMessage.streambuf (c.inMessage.finRsvOpcode + 1)] := by
      rw [handleFrame_ping hb]
      cases callbacks.onPing <;>
        simp [readMessage, call, send, frameDecoded, enqueued, Event.enqueued?, InMessage.string,
          List.filterMap_cons]
    have hkept : (c.handleFrame callbacks next k').fragmentedInMessage =
        c.fragmentedInMessage := by
      rw [handleFrame_ping hb]
      rfl
    rw [hkept, hsent, List.append_cancel_left_eq, List.cons.injEq, outData_inj]
    simp
  · have hne : ¬ opcode c.inMessage.finRsvOpcode = 9 := by
      rw [hb]
      decide
    rw [handleFrame_pong hb]
    simp only [hne, false_implies, and_true, iff_true]
    rfl

/-- A close frame on the client. -/
theorem echoed_handleFrame (hb : opcode c.inMessage.finRsvOpcode = 8) (hclosed : c.closed = false)
    (hlen : p.length = c.inMessage.length.toNat) (hq : p <+: c.inMessage.streambuf)
    (next : InMessage) (k' : ℕ) :
    Echoed callbacks.onClose c.log (c.handleFrame callbacks next k').log p
        (outData (c.rd 0) p 136) ↔
      p ≠ [] ∧ (c.inMessage.streambuf = p ∨ p.length = 1 ∧ callbacks.onClose = false) := by
  have hlt : p.length < 2 ^ 64 := by
    rw [hlen]
    exact c.inMessage.length.toNat_lt
  have hlength : c.inMessage.length = UInt64.ofNat p.length := by rw [hlen, UInt64.ofNat_toNat]
  refine echoed_of_log c.inMessage.finRsvOpcode c.inMessage.streambuf hlt hq.length_le ?_ outData_inj
  rw [handleFrame_close hb, hlength]
  simp [sendClose, connectionClose, call, send, frameDecoded, hclosed]

end Conn

end Client

/-! ### Both sides -/

/-- A server that has read the first two bytes of its first frame. -/
def Server.headed (b lengthByte : UInt8) : Server.Conn :=
  (Server.opened {} []).complete {} {} true ⟨none, [b, lengthByte]⟩

/-- A client that has read the first two bytes of its first frame. -/
def Client.headed (b lengthByte : UInt8) : Client.Conn :=
  (Client.opened {} (fun _ _ => 0) [] 0).complete {} {} true ⟨none, [b, lengthByte]⟩

theorem Server.reachable_headed (b lengthByte : UInt8) :
    Server.Reachable {} {} (Server.headed b lengthByte) :=
  Server.Reachable.received (Machine.Reach.init ⟨[], rfl⟩) _ rfl rfl

/-- **When exactly a ping or pong disturbs nothing.**  On the server, if it has FIN, or if it has no
payload and meets a fragmented message, which must be empty if the frame is a ping.  On the client,
always in the states that are reachable from a handshake that has counted the bytes behind the
response, and in any other state if the bytes behind the frame are known to be there. -/
theorem undisturbed_iff (callbacks : Callbacks) {b : UInt8} (hb : opcode b = 9 ∨ opcode b = 10)
    (p : Bytes) :
    (∀ (config : Server.Config) (c : Server.Conn) (k : Completion UInt8 ErrorCode),
      c.Receives k b p →
      (Undisturbed c.fragmentedInMessage (c.complete callbacks config true k).fragmentedInMessage
          c.log (c.complete callbacks config true k).log b (Server.outData p (b + 1)) ↔
        fin b = true ∨
          p = [] ∧ c.fragmentedInMessage ≠ none ∧ (opcode b = 9 → c.fragmentedBytes = []))) ∧
    ∀ (config : Client.Config) (c : Client.Conn) (k : Completion UInt8 ErrorCode) (rest : Bytes),
      c.inMessage.finRsvOpcode = b → c.Receives k p rest →
      (Undisturbed c.fragmentedInMessage (c.complete callbacks config true k).fragmentedInMessage
          c.log (c.complete callbacks config true k).log b (Client.outData (c.rd 0) p (b + 1)) ↔
        (opcode b = 9 → c.Splits rest)) ∧
      (Client.Reachable callbacks config c → Client.Allowed c (.complete true k) →
        c.Splits rest) := by
  constructor
  · intro config c k h
    obtain ⟨streambuf, heq⟩ := @Server.Conn.complete_receives callbacks config c k b p h
    have hlength : p = [] → UInt64.ofNat p.length = 0 := by
      rintro rfl
      rfl
    rw [heq]
    exact Server.Conn.undisturbed_handleFrame hb _ hlength
  · intro config c k rest hm h
    obtain ⟨q, next, k', heq, -, hq⟩ := @Client.Conn.complete_receives callbacks config c k p rest h
    refine ⟨?_, fun hreach hk => ?_⟩
    · rw [heq, ← hq]
      exact @Client.Conn.undisturbed_handleFrame callbacks
        { c with reading := none, inMessage := { c.inMessage with streambuf := q } } p b hm hb next
        k'
    · refine Client.Conn.Counted.splits ?_ h hk
      refine Machine.Reach.invariant ?_ ?_ hreach
      · rintro s ⟨rd, streambuf, rfl⟩
        exact Client.counted_opened rd streambuf
      · intro s a hs ha
        exact hs.act ha

/-- A server and a client that read a ping with payload `[7]`. -/
theorem undisturbed_iff_seven :
    (Undisturbed none
        ((Server.headed 0x89 0x81).complete {} {} true ⟨none, [0, 0, 0, 0, 7]⟩).fragmentedInMessage
        [.onOpen] ((Server.headed 0x89 0x81).complete {} {} true ⟨none, [0, 0, 0, 0, 7]⟩).log 0x89
        (Server.outData [7] 0x8a) ↔
      fin 0x89 = true ∨ ([7] : Bytes) = [] ∧ (Server.headed 0x89 0x81).fragmentedInMessage ≠ none ∧
        (opcode 0x89 = 9 → (Server.headed 0x89 0x81).fragmentedBytes = [])) ∧
    (Undisturbed none
        ((Client.headed 0x89 1).complete {} {} true ⟨none, [7]⟩).fragmentedInMessage
        [.onOpen] ((Client.headed 0x89 1).complete {} {} true ⟨none, [7]⟩).log 0x89
        (Client.outData (fun _ => 0) [7] 0x8a) ↔
      (opcode 0x89 = 9 → (Client.headed 0x89 1).Splits [])) :=
  ⟨(undisturbed_iff {} (Or.inl rfl) [7]).1 {} (Server.headed 0x89 0x81) ⟨none, [0, 0, 0, 0, 7]⟩
      ⟨rfl, by decide, rfl, fun _ => 0, [], rfl⟩,
    ((undisturbed_iff {} (Or.inl rfl) [7]).2 {} (Client.headed 0x89 1) ⟨none, [7]⟩ [] rfl
      ⟨rfl, rfl, ⟨0, rfl⟩, rfl⟩).1⟩

/-- A ping without FIN becomes the fragmented message of a server that had none. -/
theorem ping_disturbs :
    Server.Reachable {} {} (Server.headed 0x09 0x81) ∧
    (Server.headed 0x09 0x81).Receives ⟨none, [0, 0, 0, 0, 7]⟩ 0x09 [7] ∧
    ¬ Undisturbed (Server.headed 0x09 0x81).fragmentedInMessage
        ((Server.headed 0x09 0x81).complete {} {} true ⟨none, [0, 0, 0, 0, 7]⟩).fragmentedInMessage
        (Server.headed 0x09 0x81).log
        ((Server.headed 0x09 0x81).complete {} {} true ⟨none, [0, 0, 0, 0, 7]⟩).log 0x09
        (Server.outData [7] 0x0a) := by
  refine ⟨Server.reachable_headed 0x09 0x81, ⟨rfl, by decide, rfl, fun _ => 0, [], rfl⟩, ?_⟩
  rintro ⟨hkept, -⟩
  have hpending : ((Server.headed 0x09 0x81).complete {} {} true
      ⟨none, [0, 0, 0, 0, 7]⟩).fragmentedInMessage = some ⟨0x89, 1, [7]⟩ := by decide
  rw [hpending] at hkept
  cases hkept

/-- **When exactly a close frame is echoed**, if no close frame has been sent: never if it has no
payload, as `send_close` writes a status anyway.  Otherwise on the server, if it has FIN or meets no
bytes of a fragmented message, and on the client, if the bytes behind it are known to be there.  A
payload of one byte is not echoed in any case; it only has to reach `on_close`. -/
theorem echoed_iff (callbacks : Callbacks) {b : UInt8} (hb : opcode b = 8) (p : Bytes) :
    (∀ (config : Server.Config) (c : Server.Conn) (k : Completion UInt8 ErrorCode),
      c.Receives k b p → c.closed = false →
      (Echoed callbacks.onClose c.log (c.complete callbacks config true k).log p
          (Server.outData p 136) ↔
        p ≠ [] ∧
          (fin b = true ∨ c.fragmentedBytes = [] ∨ p.length = 1 ∧ callbacks.onClose = false))) ∧
    ∀ (config : Client.Config) (c : Client.Conn) (k : Completion UInt8 ErrorCode) (rest : Bytes),
      c.inMessage.finRsvOpcode = b → c.Receives k p rest → c.closed = false →
      (Echoed callbacks.onClose c.log (c.complete callbacks config true k).log p
          (Client.outData (c.rd 0) p 136) ↔
        p ≠ [] ∧ (c.Splits rest ∨ p.length = 1 ∧ callbacks.onClose = false)) := by
  constructor
  · intro config c k h hclosed
    obtain ⟨streambuf, heq⟩ := @Server.Conn.complete_receives callbacks config c k b p h
    rw [heq]
    exact @Server.Conn.echoed_handleFrame callbacks
      { c with reading := none, streambuf := streambuf } b p hb hclosed h.2.1
  · intro config c k rest hm h hclosed
    obtain ⟨q, next, k', heq, hprefix, hq⟩ :=
      @Client.Conn.complete_receives callbacks config c k p rest h
    rw [heq, ← hq]
    refine @Client.Conn.echoed_handleFrame callbacks
      { c with reading := none, inMessage := { c.inMessage with streambuf := q } } p ?_ hclosed
      h.2.1 hprefix next k'
    rw [← hm] at hb
    exact hb

/-- A server and a client that read a close frame with status 1000. -/
theorem echoed_iff_normal :
    (Echoed true [.onOpen]
        ((Server.headed 0x88 0x82).complete {} {} true ⟨none, [0, 0, 0, 0, 3, 232]⟩).log [3, 232]
        (Server.outData [3, 232] 136) ↔
      ([3, 232] : Bytes) ≠ [] ∧
        (fin 0x88 = true ∨ (Server.headed 0x88 0x82).fragmentedBytes = [] ∨
          ([3, 232] : Bytes).length = 1 ∧ true = false)) ∧
    (Echoed true [.onOpen] ((Client.headed 0x88 2).complete {} {} true ⟨none, [3, 232]⟩).log [3, 232]
        (Client.outData (fun _ => 0) [3, 232] 136) ↔
      ([3, 232] : Bytes) ≠ [] ∧
        ((Client.headed 0x88 2).Splits [] ∨ ([3, 232] : Bytes).length = 1 ∧ true = false)) :=
  ⟨(echoed_iff {} (b := 0x88) rfl [3, 232]).1 {} (Server.headed 0x88 0x82)
      ⟨none, [0, 0, 0, 0, 3, 232]⟩ ⟨rfl, by decide, rfl, fun _ => 0, [], rfl⟩ rfl,
    (echoed_iff {} (b := 0x88) rfl [3, 232]).2 {} (Client.headed 0x88 2) ⟨none, [3, 232]⟩ [] rfl
      ⟨rfl, rfl, ⟨0, rfl⟩, rfl⟩ rfl⟩

/-- An empty close frame is answered with the status zero, which nobody sent. -/
theorem empty_close_answered :
    Server.Reachable {} {} (Server.headed 0x88 0x80) ∧
    (Server.headed 0x88 0x80).Receives ⟨none, [0, 0, 0, 0]⟩ 0x88 [] ∧
    (Server.headed 0x88 0x80).closed = false ∧
    enqueued ((Server.headed 0x88 0x80).complete {} {} true ⟨none, [0, 0, 0, 0]⟩).log =
      [Server.outData [0, 0] 136] ∧
    ¬ Echoed true (Server.headed 0x88 0x80).log
        ((Server.headed 0x88 0x80).complete {} {} true ⟨none, [0, 0, 0, 0]⟩).log []
        (Server.outData [] 136) := by
  have hsent : enqueued ((Server.headed 0x88 0x80).complete {} {} true ⟨none, [0, 0, 0, 0]⟩).log =
      [Server.outData [0, 0] 136] := by decide
  refine ⟨Server.reachable_headed 0x88 0x80, ⟨rfl, by decide, rfl, fun _ => 0, [], rfl⟩, rfl, hsent,
    ?_⟩
  rintro ⟨hecho, -⟩
  have heq := hecho (Or.inl rfl)
  rw [hsent] at heq
  exact absurd heq (by decide)

end SimpleWeb
