/-
**The size a message reports.**

`size` returns the length field of a message, `string` the contents of its stream buffer; a caller
that builds a memory block from the one with the size of the other relies on their being equal.

On the server they are equal in every run.  On the client they are equal in every run that starts
from a response with a regular head, one whose lines between the first and the empty one all have a
colon.  After another response, header lines are left in the buffer that the count of additional
bytes does not know of, and the messages read from there carry bytes behind their end.

Main results:

* `SimpleWeb.size_eq_length` — **delivered messages have the size they report**;
* `SimpleWeb.size_ne_length` — a message that has not.
-/

import SimpleWeb.MessageSize
import SimpleWeb.Upgrade

set_option relaxedAutoImplicit false
set_option autoImplicit false

namespace SimpleWeb

/-! ### Where a run of the client starts -/

namespace Client

variable {callbacks : Callbacks} {config : Config} {sha1 : Bytes → Digest} {beyond : Bytes}
  {order : Order} {rd : ℕ → Mask} {nonce : Nonce}

/-- After a response with a regular head, nothing but what follows the head is in the buffer. -/
theorem sizes_onResponse {response : Bytes} {n : ℕ} (hend : endOfHead response = some n)
    (hregular : RegularHead (response.take n)) {c : Conn}
    (h : onResponse callbacks sha1 beyond order rd nonce response n = .ok c) :
    Sizes c.log c.live ∧ c.Counted := by
  rcases @onResponse_cases callbacks sha1 beyond order rd nonce response n with
    ⟨c', ec, hlog, hr, heq⟩ | ⟨fault, heq⟩ | ⟨head, rest, hparse, heq⟩
  · -- the connection has failed and reads nothing
    obtain rfl := Except.ok.inj (h.symm.trans heq)
    have hquiet : Quietly c'.log (c'.connectionError callbacks ec).log :=
      Quietly.call _ _ ⟨rfl, rfl⟩
    have hreading : (c'.connectionError callbacks ec).reading = none := hr
    have hlive : (c'.connectionError callbacks ec).live = none := by
      simp [Conn.live, hr]
    rw [hlog] at hquiet
    rw [hlive]
    exact ⟨Sizes.empty.quietly hquiet, Conn.counted_of_reading_none hreading⟩
  · rw [heq] at h
    cases h
  · obtain rfl := Except.ok.inj (h.symm.trans heq)
    have hrest := ResponseMessage.parse_regular hend hregular hparse
    rw [hrest, ← List.length_drop]
    exact sizes_opened rd _

end Client

/-! ### Every run -/

/-- The log of a run of the server, or of a run of the client that starts from a response with a
regular head. -/
inductive RegularRun (callbacks : Callbacks) : List Event → Prop
  | server {config : Server.Config} {c : Server.Conn} :
      Server.Reachable callbacks config c → RegularRun callbacks c.log
  | client {config : Client.Config} {sha1 : Bytes → Digest} {beyond : Bytes} {order : Order}
      {rd : ℕ → Mask} {nonce : Client.Nonce} {response : Bytes} {n : ℕ} {c₀ c : Client.Conn} :
      endOfHead response = some n → RegularHead (response.take n) →
      Client.onResponse callbacks sha1 beyond order rd nonce response n = .ok c₀ →
      Machine.Reach (Client.act callbacks config) Client.Allowed (· = c₀) c →
      RegularRun callbacks c.log

/-- **Delivered messages have the size they report**, in every run that is regular. -/
theorem size_eq_length {callbacks : Callbacks} {log : List Event} (h : RegularRun callbacks log)
    (hbytes : frameBytes log < 2 ^ 63) {m : InMessage} (hm : .onMessage m ∈ log) :
    m.size.toNat = m.string.length := by
  have hlt : frameBytes log < 2 ^ 64 := by omega
  cases h with
  | server hc => exact hc.sizes.size_eq hlt hm
  | client hend hregular hopen hc =>
      refine (Client.sizes_of_reach ?_ hc).size_eq hlt hm
      rintro _ rfl
      exact Client.sizes_onResponse hend hregular hopen

theorem onResponse_wholeAnswer :
    Client.onResponse {} calcSha1 [] .insertion (fun _ _ => 0) Client.sampleNonce Client.wholeAnswer
      Client.wholeAnswer.length = .ok (Client.opened {} (fun _ _ => 0) [] 0) := by
  have hparse : ResponseMessage.parse Client.wholeAnswer {} = _ :=
    Client.parse_sampleAnswer (by decide)
  have hopen := @Client.onResponse_open {} calcSha1 [] .insertion (fun _ _ => 0)
    Client.sampleNonce Client.wholeAnswer _ Client.wholeAnswer.length _ _ hparse (by decide) rfl _
    Client.decode_wholeDigest rfl
  rw [Nat.sub_self] at hopen
  exact hopen

/-- A client that receives `z` after a regular answer. -/
theorem size_eq_length_z :
    (⟨0x81, 1, [122]⟩ : InMessage).size.toNat = (⟨0x81, 1, [122]⟩ : InMessage).string.length := by
  have hstart : Machine.Reach (Client.act {} {}) Client.Allowed
      (· = Client.opened {} (fun _ _ => 0) [] 0) (Client.opened {} (fun _ _ => 0) [] 0) :=
    Machine.Reach.init rfl
  have hheader := Client.reach_received hstart [0x81, 0x01] rfl rfl
  have hcontent := Client.reach_received hheader [122] rfl rfl
  have hrun := RegularRun.client (by decide +kernel) (by decide +kernel) onResponse_wholeAnswer
    hcontent
  exact size_eq_length hrun (by decide) (by decide)

/-! #### A head that is not regular -/

/-- A field line, a line without a colon, and a line that starts as a frame does. -/
def irregularAnswer : Bytes :=
  ResponseMessage.statusLine (ascii "1.1") (ascii "101 Switching Protocols") ++ 10 ::
    (HttpHeader.unlines [HttpHeader.fieldLine
        (ascii "Sec-WebSocket-Accept", ascii "jlUQLACuNU42uoMufLD0HDVk/ao=")] ++
      (ascii "X\r" ++ 10 :: ([0x82, 0x01] ++ ascii "bar: x\r\n\r\n")))

/-- The connection when this answer has been accepted: the last lines of its head are in the
buffer. -/
def irregularConn : Client.Conn :=
  Client.opened {} (fun _ _ => 0) ([0x82, 0x01] ++ ascii "bar: x\r\n\r\n") 0

theorem onResponse_irregularAnswer :
    Client.onResponse {} calcSha1 [] .insertion (fun _ _ => 0) Client.sampleNonce irregularAnswer
      irregularAnswer.length = .ok irregularConn := by
  have hfields := @HttpHeader.parse_lines [HttpHeader.fieldLine
    (ascii "Sec-WebSocket-Accept", ascii "jlUQLACuNU42uoMufLD0HDVk/ao=")] (by decide)
    (ascii "X\r") (by decide) ([0x82, 0x01] ++ ascii "bar: x\r\n\r\n")
  rw [List.flatMap_singleton, HttpHeader.fieldOf_fieldLine (by decide)] at hfields
  have hparse : ResponseMessage.parse irregularAnswer {} = _ :=
    ResponseMessage.parse_response (by decide) (by decide) hfields {}
  have hopen := @Client.onResponse_open {} calcSha1 [] .insertion (fun _ _ => 0)
    Client.sampleNonce irregularAnswer _ irregularAnswer.length _ _ hparse (by decide) rfl _
    Client.decode_wholeDigest rfl
  rw [Nat.sub_self] at hopen
  exact hopen

/-- **A message that has not the size it reports**: it is one byte long, and its buffer holds the
rest of the head and the next frame as well. -/
theorem size_ne_length :
    endOfHead irregularAnswer = some irregularAnswer.length ∧
      ∃ c₀ c m, Client.onResponse {} calcSha1 [] .insertion (fun _ _ => 0) Client.sampleNonce
          irregularAnswer irregularAnswer.length = .ok c₀ ∧
        Machine.Reach (Client.act {} {}) Client.Allowed (· = c₀) c ∧ frameBytes c.log < 2 ^ 63 ∧
        .onMessage m ∈ c.log ∧ m.size.toNat ≠ m.string.length := by
  have hstart : Machine.Reach (Client.act {} {}) Client.Allowed (· = irregularConn) irregularConn :=
    Machine.Reach.init rfl
  have hheader := Client.reach_received hstart [0x81, 0x01] rfl rfl
  have hcontent := Client.reach_received hheader [122] rfl rfl
  refine ⟨by decide +kernel, _, _, ⟨0x82, 1, ascii "bar: x\r\n\r\n" ++ [0x81, 0x01, 122]⟩,
    onResponse_irregularAnswer, hcontent, ?_, ?_, ?_⟩
  · decide
  · decide
  · decide

end SimpleWeb
