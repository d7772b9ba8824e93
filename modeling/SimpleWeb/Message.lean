/-
**Messages, events and outcomes shared by the WebSocket server and client.**

`websocket/server_ws.hpp` and `websocket/client_ws.hpp` declare the same message type, call the
same kinds of callbacks and write the same frame header, once each.  This module holds what they
have in common.  An endpoint's run is recorded in a log of `SimpleWeb.Event`s: the callbacks it
calls, the data it puts on its send queue, and the frames it has decoded.  The last are kept for
the specifications only; no function of the model reads the log.

Main definitions:

* `SimpleWeb.InMessage` — a received message: first header byte, announced length, stream buffer;
* `SimpleWeb.Event`, `SimpleWeb.ErrorCode`, `SimpleWeb.Callbacks` — what an endpoint does, the
  errors it reports, and which of its callbacks are set;
* `SimpleWeb.istreamGet`, `SimpleWeb.payloadGets`, `SimpleWeb.unmask` — reading a stream buffer;
* `SimpleWeb.putLength`, `SimpleWeb.readLength` — the extended length of a frame header.

Main results:

* `SimpleWeb.putLength_eq` — the length loop of `send` writes the big-endian length;
* `SimpleWeb.readLength_eq` — the length loop of `read_message` reads it back;
* `SimpleWeb.payloadGets_append` — reading as many bytes as there are never meets the end.
-/

import Mathlib.Data.List.GetD
import SimpleWeb.Octets

set_option relaxedAutoImplicit false
set_option autoImplicit false

namespace SimpleWeb

/-! ### Bytes -/

abbrev Bytes := List UInt8

/-- The bytes of an ASCII text. -/
def ascii (s : String) : Bytes := s.toList.map fun c => UInt8.ofNat c.toNat

/-- `std::unordered_multimap` of header fields, as the list of its elements. -/
abbrev CaseInsensitiveMultimap := List (Bytes × Bytes)

/-- `std::array<unsigned char, 4>` holding a frame's mask. -/
abbrev Mask := Fin 4 → UInt8

/-- The indices of a mask are taken modulo four. -/
instance Mask.neZero : NeZero 4 := ⟨by decide⟩

/-- The mask read into a zeroed array; bytes that could not be read stay zero. -/
def Mask.ofBytes (bytes : Bytes) : Mask := fun i => bytes.getD i 0

@[simp] theorem Mask.ofBytes_ofFn (mask : Mask) : Mask.ofBytes (List.ofFn mask) = mask := by
  funext i
  rw [Mask.ofBytes, List.getD_eq_getElem _ _ (by simp), List.getElem_ofFn]

/-! ### Header bytes -/

/-- The FIN bit of a header byte. -/
def fin (finRsvOpcode : UInt8) : Bool := finRsvOpcode &&& 0x80 ≠ 0

/-- The opcode of a header byte. -/
def opcode (finRsvOpcode : UInt8) : UInt8 := finRsvOpcode &&& 0x0f

/-- Control frames are those with the high bit of the opcode set. -/
def IsControl (finRsvOpcode : UInt8) : Prop := 8 ≤ opcode finRsvOpcode

instance (finRsvOpcode : UInt8) : Decidable (IsControl finRsvOpcode) :=
  inferInstanceAs (Decidable (8 ≤ opcode finRsvOpcode))

/-! ### Messages, errors, events -/

/-- A received message.  `length` is what `size` returns, `streambuf` is what `string` returns. -/
structure InMessage where
  finRsvOpcode : UInt8
  length : UInt64
  streambuf : Bytes
  deriving DecidableEq, Repr

def InMessage.size (m : InMessage) : UInt64 := m.length

def InMessage.string (m : InMessage) : Bytes := m.streambuf

/-- A message with the contents of another moved to its end. -/
def InMessage.append (m inMessage : InMessage) : InMessage :=
  { m with length := m.length + inMessage.length, streambuf := m.streambuf ++ inMessage.streambuf }

/-- The message with a given header byte and contents. -/
def InMessage.of (m : UInt8 × Bytes) : InMessage := ⟨m.1, UInt64.ofNat m.2.length, m.2⟩

/-- The error codes made by the endpoints, and those reported by the transport. -/
inductive ErrorCode
  | messageSize
  | protocolError
  | permissionDenied
  | transport (value : ℕ)
  deriving DecidableEq, Repr

/-- What an endpoint does: the callbacks it calls, the frames it puts on its send queue, and, for
the specifications, the frames it has decoded. -/
inductive Event
  | onOpen
  | onMessage (inMessage : InMessage)
  | onClose (status : ℤ) (reason : Bytes)
  | onError (ec : ErrorCode)
  | onPing
  | onPong
  | enqueue (outData : Bytes)
  | frame (finRsvOpcode : UInt8) (payload : Bytes)
  deriving DecidableEq, Repr

/-- The messages delivered. -/
def Event.message? : Event → Option (UInt8 × Bytes)
  | .onMessage m => some (m.finRsvOpcode, m.string)
  | _ => none

/-- The calls to `on_ping` and `on_pong`. -/
def Event.control? : Event → Option Event
  | .onPing => some .onPing
  | .onPong => some .onPong
  | _ => none

/-- The data put on the send queue. -/
def Event.enqueued? : Event → Option Bytes
  | .enqueue outData => some outData
  | _ => none

/-- The calls that end a connection. -/
def Event.terminal? : Event → Option Event
  | .onClose status reason => some (.onClose status reason)
  | .onError ec => some (.onError ec)
  | _ => none

/-- The frames decoded. -/
def Event.frame? : Event → Option (UInt8 × Bytes)
  | .frame b p => some (b, p)
  | _ => none

/-- Which of the callbacks are set; one that is not set is not called. -/
structure Callbacks where
  onOpen : Bool := true
  onMessage : Bool := true
  onClose : Bool := true
  onError : Bool := true
  onPing : Bool := true
  onPong : Bool := true

/-- The greatest `std::size_t`. -/
def sizeMax : UInt64 := 0xffffffffffffffff

theorem toNat_sizeMax : sizeMax.toNat = 2 ^ 64 - 1 := by decide

theorem not_sizeMax_lt (n : UInt64) : ¬ sizeMax < n := by
  rw [UInt64.lt_iff_toNat_lt, toNat_sizeMax]
  have := n.toNat_lt
  omega

/-! ### Reading a stream buffer -/

/-- `std::istream::get`: the next byte, or end of file. -/
def istreamGet : Bytes → Option UInt8 × Bytes
  | [] => (none, [])
  | b :: s => (some b, s)

/-- The result of `get` as an `unsigned char`; end of file is `-1`. -/
def getChar (g : Option UInt8) : UInt8 := g.getD 0xff

/-- The `n` calls to `get` made by the payload loop. -/
def payloadGets : ℕ → Bytes → List (Option UInt8) × Bytes
  | 0, s => ([], s)
  | n + 1, s =>
      let g := istreamGet s
      let r := payloadGets n g.2
      (g.1 :: r.1, r.2)

/-- The payload loop: `n` bytes read from the buffer, byte `c` combined with byte `c % 4` of the
mask. -/
def unmask (mask : Mask) (n : ℕ) (s : Bytes) : Bytes × Bytes :=
  let r := payloadGets n s
  (Octets.xorCycle mask (r.1.map getChar), r.2)

theorem payloadGets_append (xs rest : Bytes) :
    payloadGets xs.length (xs ++ rest) = (xs.map some, rest) := by
  induction xs with
  | nil => rfl
  | cons x xs ih => simp [payloadGets, istreamGet, ih]

@[simp] theorem length_payloadGets (n : ℕ) (s : Bytes) : (payloadGets n s).1.length = n := by
  induction n generalizing s with
  | zero => rfl
  | succ n ih => simp [payloadGets, ih]

/-- The payload loop reads as many bytes as it is asked to, and undoes the mask. -/
theorem unmask_append (mask : Mask) (xs rest : Bytes) :
    unmask mask xs.length (xs ++ rest) = (Octets.xorCycle mask xs, rest) := by
  have hsome : (xs.map some).map getChar = xs := by
    simp [Function.comp_def, getChar]
  simp [unmask, payloadGets_append, hsome]

theorem length_unmask (mask : Mask) (n : ℕ) (s : Bytes) : (unmask mask n s).1.length = n := by
  simp [unmask]

/-- The status of a close frame, when there is room for one, and what follows it. -/
def closeStatus (length : UInt64) (s : Bytes) : ℤ × Bytes :=
  if length ≥ 2 then
    let byte1 := istreamGet s
    let byte2 := istreamGet byte1.2
    ((((getChar byte1.1).toNat <<< 8) + (getChar byte2.1).toNat : ℕ), byte2.2)
  else (0, s)

/-- What `send_close` writes: two bytes of status and the reason. -/
def closePayload (status : ℤ) (reason : Bytes) : Bytes :=
  UInt8.ofInt (status >>> (8 : ℕ)) :: UInt8.ofInt (status.tmod 256) :: reason

/-! ### The extended length -/

/-- The loop of `send` that writes a length, from byte `c - 1` down to byte `0`. -/
def putLength (length : UInt64) : ℕ → Bytes
  | 0 => []
  | c + 1 => ((length >>> UInt64.ofNat (8 * c)) % 256).toUInt8 :: putLength length c

/-- The loop of `read_message` that reads a length from `numBytes` bytes. -/
def readLength (numBytes : ℕ) (lengthBytes : Bytes) : UInt64 :=
  (List.range numBytes).foldl
    (fun length c =>
      length + (lengthBytes.getD c 0).toUInt64 <<< UInt64.ofNat (8 * (numBytes - 1 - c))) 0

theorem shiftRight_mod (length : UInt64) {c : ℕ} (hc : c < 8) :
    ((length >>> UInt64.ofNat (8 * c)) % 256).toUInt8 = UInt8.ofNat (length.toNat / 256 ^ c) := by
  have hmod : 8 * c % 64 = 8 * c := Nat.mod_eq_of_lt (by omega)
  have hpow : 2 ^ (8 * c) = 256 ^ c := by rw [Nat.pow_mul]
  apply UInt8.toNat_inj.1
  simp [hmod, Nat.shiftRight_eq_div_pow, hpow]

/-- **The length loop of `send` writes the big-endian length.** -/
theorem putLength_eq (length : UInt64) {w : ℕ} (hw : w ≤ 8) :
    putLength length w = Octets.toBytes w length.toNat := by
  induction w with
  | zero => rfl
  | succ w ih => rw [putLength, Octets.toBytes, ih (by omega), shiftRight_mod length (by omega)]

theorem shiftLeft_eq (b : UInt8) {k : ℕ} (hk : k < 64) :
    b.toUInt64 <<< UInt64.ofNat k = UInt64.ofNat (b.toNat * 2 ^ k) := by
  have hmod : k % 64 = k := Nat.mod_eq_of_lt hk
  apply UInt64.toNat_inj.1
  simp [hmod, Nat.shiftLeft_eq]

/-- The loop from byte `pre.length` on. -/
theorem foldl_readLength (bytes : Bytes) : ∀ (pre : Bytes) (acc : UInt64),
    pre.length + bytes.length ≤ 8 →
    (List.range' pre.length bytes.length).foldl
      (fun length c => length + ((pre ++ bytes).getD c 0).toUInt64 <<<
        UInt64.ofNat (8 * (pre.length + bytes.length - 1 - c))) acc =
      acc + UInt64.ofNat (Octets.ofBytes bytes) := by
  induction bytes with
  | nil => intro pre acc _; simp [Octets.ofBytes]
  | cons b bytes ih =>
      intro pre acc hlen
      rw [List.length_cons] at hlen
      have hget : (pre ++ b :: bytes).getD pre.length 0 = b := by simp
      have hexp : pre.length + (bytes.length + 1) - 1 - pre.length = bytes.length := by omega
      have hpow : 2 ^ (8 * bytes.length) = 256 ^ bytes.length := by rw [Nat.pow_mul]
      have hrest := ih (pre ++ [b]) (acc + UInt64.ofNat (b.toNat * 256 ^ bytes.length))
        (by simp; omega)
      rw [List.length_cons, List.range'_succ, List.foldl_cons, hget, hexp,
        shiftLeft_eq b (by omega), hpow]
      simp only [List.append_assoc, List.singleton_append, List.length_append,
        List.length_singleton] at hrest
      rw [show pre.length + (bytes.length + 1) = pre.length + 1 + bytes.length by omega, hrest,
        Octets.ofBytes, UInt64.ofNat_add, UInt64.add_assoc]

/-- **The length loop of `read_message` reads the big-endian length.** -/
theorem readLength_eq {bytes : Bytes} (h : bytes.length ≤ 8) :
    readLength bytes.length bytes = UInt64.ofNat (Octets.ofBytes bytes) := by
  have hloop := foldl_readLength bytes [] 0 (by simpa using h)
  simpa [readLength, List.range_eq_range'] using hloop

end SimpleWeb
