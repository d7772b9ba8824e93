/-
**The send queues of the WebSocket server and client.**

`Connection::send` and `Connection::send_from_queue` of `websocket/server_ws.hpp` and
`websocket/client_ws.hpp` keep the data to be sent in a queue of which one entry at a time is being
written (`SendQueue`).  On the client an entry is the finished frame.  On the server it is the
header and a reference to the message, which may be on the queues of several connections, and whose
owner may alter it when it is on none; the world of all connections and messages is the state here.

Main definitions:

* `SimpleWeb.Server.OutData`, `SimpleWeb.Server.Sending`, `SimpleWeb.Server.World` — what the queues
  of the server hold, the queue of one connection, and all of them with the messages;
* `SimpleWeb.Server.World.act`, `SimpleWeb.Server.World.sentOn` — any interleaving of sends,
  completions, callbacks and alterations, and what it has been asked to send on a connection;
* `SimpleWeb.Client.Sending.act` — the same for the one connection of the client.

Main results:

* `SimpleWeb.Server.World.inv_act` — what one step of the server's world preserves;
* `SimpleWeb.Server.World.enqueued_foldl`, `SimpleWeb.Client.Sending.enqueued_foldl` — what is on the
  queues is what has been sent;
* `SimpleWeb.send_queue_sound` — **the send queue loses, duplicates and interleaves nothing**.
-/

import Mathlib.Logic.Function.Basic
import SimpleWeb.SendQueue
import SimpleWeb.Server
import SimpleWeb.Client

set_option relaxedAutoImplicit false
set_option autoImplicit false

namespace SimpleWeb

/-! ### The server -/

namespace Server

/-- A message made by the program.  `history` records, for the specifications, what it has held
before. -/
structure OutMessage where
  streambuf : Bytes := []
  history : List Bytes := []

/-- All contents the message has had, up to the present one. -/
def OutMessage.contents (m : OutMessage) : List Bytes := m.history ++ [m.streambuf]

def OutMessage.alter (m : OutMessage) (streambuf : Bytes) : OutMessage :=
  ⟨streambuf, m.contents⟩

/-- An element of `send_queue`, without its callback.  The fields from `finRsvOpcode` on record, for
the specifications, the call of `send`: its opcode, and which content of the message it met. -/
structure OutData (μ : Type*) where
  outHeader : Bytes
  outMessage : μ
  finRsvOpcode : UInt8
  version : ℕ
  content : Bytes

/-- The frame that `send` is asked to send. -/
def OutData.frame {μ : Type*} (d : OutData μ) : Bytes := outData d.content d.finRsvOpcode

/-- The send queue of a connection, and the data of the writes that have succeeded. -/
structure Sending (μ κ : Type*) where
  sendQueue : SendQueue (OutData μ) κ ErrorCode := {}
  transmitted : List Bytes := []

/-- The messages, and the connections. -/
structure World (ι μ κ : Type*) where
  outMessages : μ → OutMessage := fun _ => {}
  connections : ι → Sending μ κ := fun _ => {}

variable {ι μ κ : Type*}

/-- What `send` puts on the queue for a message. -/
def OutMessage.outData (m : OutMessage) (outMessage : μ) (finRsvOpcode : UInt8) : OutData μ :=
  { outHeader := outHeader (UInt64.ofNat m.streambuf.length) finRsvOpcode
    outMessage := outMessage
    finRsvOpcode := finRsvOpcode
    version := m.history.length
    content := m.streambuf }

/-- The bytes that a write of the entry is given: header and message. -/
def buffers (outMessages : μ → OutMessage) (d : OutData μ) : Bytes :=
  d.outHeader ++ (outMessages d.outMessage).streambuf

namespace Sending

variable (outMessages : μ → OutMessage)

def send (c : Sending μ κ) (outMessage : μ) (callback : Option κ) (finRsvOpcode : UInt8) :
    Sending μ κ :=
  let data := (outMessages outMessage).outData outMessage finRsvOpcode
  { c with sendQueue := c.sendQueue.send ⟨data, callback⟩ }

/-- The outstanding write number `i` is completed. -/
def complete (c : Sending μ κ) (i : ℕ) (lock : Bool) (ec : Option ErrorCode) : Sending μ κ :=
  let data := if ec.isNone then c.sendQueue.outstanding[i]?.toList else []
  { c with
    sendQueue := c.sendQueue.complete i lock ec
    transmitted := c.transmitted ++ data.map (buffers outMessages) }

/-- The handler number `i` goes on. -/
def handle (c : Sending μ κ) (i : ℕ) : Sending μ κ :=
  { c with sendQueue := c.sendQueue.handle i }

end Sending

namespace World

inductive Act (ι μ κ : Type*)
  | alter (outMessage : μ) (streambuf : Bytes)
  | send (connection : ι) (outMessage : μ) (callback : Option κ) (finRsvOpcode : UInt8)
  | complete (connection : ι) (i : ℕ) (lock : Bool) (ec : Option ErrorCode)
  | handle (connection : ι) (i : ℕ)

variable [DecidableEq ι] [DecidableEq μ]

/-- Something happens to one of the connections. -/
def on (w : World ι μ κ) (connection : ι) (f : Sending μ κ → Sending μ κ) : World ι μ κ :=
  { w with
    connections := Function.update w.connections connection (f (w.connections connection)) }

def act (w : World ι μ κ) : Act ι μ κ → World ι μ κ
  | .alter outMessage streambuf =>
      { w with
        outMessages := Function.update w.outMessages outMessage
          ((w.outMessages outMessage).alter streambuf) }
  | .send connection outMessage callback finRsvOpcode =>
      w.on connection fun c => c.send w.outMessages outMessage callback finRsvOpcode
  | .complete connection i lock ec =>
      w.on connection fun c => c.complete w.outMessages i lock ec
  | .handle connection i => w.on connection fun c => c.handle i

/-- "Do not alter while sending"; and the handler runner has not been stopped. -/
def Allowed (w : World ι μ κ) : Act ι μ κ → Prop
  | .alter outMessage _ =>
      ∀ j, ∀ e ∈ (w.connections j).sendQueue.queue, e.data.outMessage ≠ outMessage
  | .send _ _ _ _ => True
  | .complete connection i lock _ =>
      i < (w.connections connection).sendQueue.outstanding.length ∧ lock = true
  | .handle connection i => i < (w.connections connection).sendQueue.handlers.length

end World

/-! ### The invariant of the server's world -/

/-- The header is that of the frame, and the content is one that the message has had. -/
structure Recorded (outMessages : μ → OutMessage) (d : OutData μ) : Prop where
  outHeader : d.outHeader = outHeader (UInt64.ofNat d.content.length) d.finRsvOpcode
  content : (outMessages d.outMessage).contents[d.version]? = some d.content

/-- The queue is sound; the messages on it hold what they held when they were sent; and what has
been transmitted are the frames of the writes that have succeeded. -/
structure Sending.Sound (outMessages : μ → OutMessage) (c : Sending μ κ) : Prop where
  sendQueue : c.sendQueue.Sound
  recorded : ∀ e ∈ c.sendQueue.enqueued, Recorded outMessages e.data
  current : ∀ e ∈ c.sendQueue.queue,
    e.data.version = (outMessages e.data.outMessage).history.length
  transmitted : c.transmitted = c.sendQueue.written.map OutData.frame

namespace Sending

variable {outMessages : μ → OutMessage} {c : Sending μ κ}

theorem sound_init (outMessages : μ → OutMessage) :
    Sending.Sound outMessages ({} : Sending μ κ) where
  sendQueue := SendQueue.sound_init
  recorded _ he := by cases he
  current _ he := by cases he
  transmitted := rfl

/-- **The buffers of a write are the frame** as long as the entry is on the queue. -/
theorem Sound.buffers_eq (h : c.Sound outMessages) {e : SendQueue.Entry (OutData μ) κ}
    (he : e ∈ c.sendQueue.queue) : buffers outMessages e.data = e.data.frame := by
  have hmem : e ∈ c.sendQueue.enqueued := by
    rw [h.sendQueue.enqueued]
    exact List.mem_append_right _ he
  obtain ⟨hheader, hcontent⟩ := h.recorded e hmem
  have hstreambuf : (outMessages e.data.outMessage).streambuf = e.data.content := by
    rw [h.current e he] at hcontent
    simpa [OutMessage.contents] using hcontent
  rw [buffers, OutData.frame, Server.outData, hheader, hstreambuf]

/-- So are the buffers of a write that is outstanding. -/
theorem Sound.buffers_outstanding (h : c.Sound outMessages) {d : OutData μ}
    (hd : d ∈ c.sendQueue.outstanding) : buffers outMessages d = d.frame := by
  rw [h.sendQueue.outstanding] at hd
  obtain ⟨e, he, rfl⟩ : ∃ e, c.sendQueue.queue.head? = some e ∧ e.data = d := by
    simpa using hd
  exact h.buffers_eq (List.mem_of_mem_head? he)

/-- Altering a message that is not on the queue. -/
theorem Sound.alter [DecidableEq μ] (h : c.Sound outMessages) {outMessage : μ} {streambuf : Bytes}
    (hfree : ∀ e ∈ c.sendQueue.queue, e.data.outMessage ≠ outMessage) :
    c.Sound (Function.update outMessages outMessage
      ((outMessages outMessage).alter streambuf)) := by
  refine ⟨h.sendQueue, ?_, ?_, h.transmitted⟩
  · intro e he
    obtain ⟨hheader, hcontent⟩ := h.recorded e he
    refine ⟨hheader, ?_⟩
    by_cases hm : e.data.outMessage = outMessage
    · subst hm
      have hlt := (List.getElem?_eq_some_iff.1 hcontent).1
      rw [Function.update_self, OutMessage.contents, OutMessage.alter,
        List.getElem?_append_left hlt, hcontent]
    · rw [Function.update_of_ne hm, hcontent]
  · intro e he
    rw [Function.update_of_ne (hfree e he)]
    exact h.current e he

/-- A message is sent. -/
theorem Sound.send (h : c.Sound outMessages) (outMessage : μ) (callback : Option κ) (b : UInt8) :
    (c.send outMessages outMessage callback b).Sound outMessages := by
  refine ⟨h.sendQueue.send _, ?_, ?_, ?_⟩
  · intro e he
    simp only [Sending.send, SendQueue.enqueued_send] at he
    rcases List.mem_append.1 he with he | he
    · exact h.recorded e he
    · obtain rfl := List.mem_singleton.1 he
      refine ⟨rfl, ?_⟩
      simp [OutMessage.outData, OutMessage.contents]
  · intro e he
    simp only [Sending.send, SendQueue.queue_send] at he
    rcases List.mem_append.1 he with he | he
    · exact h.current e he
    · obtain rfl := List.mem_singleton.1 he
      rfl
  · simp only [Sending.send, SendQueue.written_send]
    exact h.transmitted

/-- An outstanding write is completed. -/
theorem Sound.complete (h : c.Sound outMessages) {i : ℕ}
    (hi : i < c.sendQueue.outstanding.length) (ec : Option ErrorCode) :
    (c.complete outMessages i true ec).Sound outMessages := by
  refine ⟨h.sendQueue.complete hi ec, ?_, ?_, ?_⟩
  · intro e he
    simp only [Sending.complete, SendQueue.enqueued_complete] at he
    exact h.recorded e he
  · intro e he
    exact h.current e (SendQueue.mem_queue_complete he)
  · have hdata : c.sendQueue.outstanding[i]?.toList.map (buffers outMessages) =
        c.sendQueue.outstanding[i]?.toList.map OutData.frame := by
      refine List.map_congr_left ?_
      intro d hd
      exact h.buffers_outstanding (List.mem_of_getElem? (by simpa using hd))
    simp only [Sending.complete, SendQueue.written_complete, List.map_append, h.transmitted]
    cases ec with
    | none => simp [hdata]
    | some ec => simp

/-- A handler goes on. -/
theorem Sound.handle (h : c.Sound outMessages) (i : ℕ) : (c.handle i).Sound outMessages := by
  obtain ⟨handlers, called, heq⟩ := c.sendQueue.handle_eq i
  have hsound := h.sendQueue.handle i
  rw [heq] at hsound
  rw [Sending.handle, heq]
  exact ⟨hsound, h.recorded, h.current, h.transmitted⟩

end Sending

namespace World

/-- Every connection is sound. -/
def Inv (w : World ι μ κ) : Prop := ∀ j, (w.connections j).Sound w.outMessages

section act

variable [DecidableEq ι]

/-- What happens to one connection is no matter to the others. -/
theorem Inv.on {w : World ι μ κ} (h : w.Inv) {connection : ι} {f : Sending μ κ → Sending μ κ}
    (hf : (f (w.connections connection)).Sound w.outMessages) : (w.on connection f).Inv :=
  (Function.forall_update_iff w.connections fun _ c => c.Sound w.outMessages).2
    ⟨hf, fun j _ => h j⟩

/-- The connection itself goes on. -/
@[simp] theorem connections_on_self (w : World ι μ κ) (connection : ι)
    (f : Sending μ κ → Sending μ κ) :
    (w.on connection f).connections connection = f (w.connections connection) :=
  Function.update_self ..

theorem connections_on_of_ne (w : World ι μ κ) {connection j : ι} (h : connection ≠ j)
    (f : Sending μ κ → Sending μ κ) : (w.on connection f).connections j = w.connections j :=
  Function.update_of_ne (Ne.symm h) ..

variable [DecidableEq μ]

/-- **What one step preserves.** -/
theorem inv_act {w : World ι μ κ} (h : w.Inv) {a : Act ι μ κ} (ha : Allowed w a) :
    (act w a).Inv := by
  cases a with
  | alter outMessage streambuf =>
      intro j
      exact (h j).alter (ha j)
  | send connection outMessage callback b =>
      exact h.on ((h connection).send outMessage callback b)
  | complete connection i lock ec =>
      obtain ⟨hi, rfl⟩ := ha
      exact h.on ((h connection).complete hi ec)
  | handle connection i => exact h.on ((h connection).handle i)

/-- What a whole run preserves. -/
theorem inv_foldl {w : World ι μ κ} (h : w.Inv) {as : List (Act ι μ κ)}
    (has : Machine.Along act Allowed w as) : (as.foldl act w).Inv := by
  induction as generalizing w with
  | nil => exact h
  | cons a as ih => exact ih (inv_act h has.1) has.2

/-! #### What has been sent -/

/-- The frames that a run puts on the queue of connection `j`, with their callbacks: one for each call
of `send` on it, made of what the message holds at that moment.  `streambufs` is what the messages hold
at the beginning. -/
def sentOn (j : ι) : (μ → Bytes) → List (Act ι μ κ) → List (SendQueue.Entry Bytes κ)
  | _, [] => []
  | streambufs, .alter outMessage streambuf :: as =>
      sentOn j (Function.update streambufs outMessage streambuf) as
  | streambufs, .send connection outMessage callback finRsvOpcode :: as =>
      (if connection = j then [⟨outData (streambufs outMessage) finRsvOpcode, callback⟩] else []) ++
        sentOn j streambufs as
  | streambufs, .complete _ _ _ _ :: as => sentOn j streambufs as
  | streambufs, .handle _ _ :: as => sentOn j streambufs as

/-- **The entries of a queue are the frames that have been sent on it**, in order. -/
theorem enqueued_foldl (w : World ι μ κ) (j : ι) (as : List (Act ι μ κ)) :
    ((as.foldl act w).connections j).sendQueue.enqueued.map (SendQueue.Entry.map OutData.frame) =
      (w.connections j).sendQueue.enqueued.map (SendQueue.Entry.map OutData.frame) ++
        sentOn j (fun m => (w.outMessages m).streambuf) as := by
  induction as generalizing w with
  | nil => simp [sentOn]
  | cons a as ih =>
      rw [List.foldl_cons, ih]
      cases a with
      | alter outMessage streambuf =>
          -- the sends behind it meet the new content
          have hstreambufs : (fun m => ((act w (.alter outMessage streambuf)).outMessages m).streambuf) =
              Function.update (fun m => (w.outMessages m).streambuf) outMessage streambuf := by
            funext m
            by_cases hm : m = outMessage
            · subst hm
              simp [act, OutMessage.alter]
            · simp [act, Function.update_of_ne hm]
          rw [hstreambufs]
          rfl
      | send connection outMessage callback b =>
          -- one frame more, if this is the connection
          rw [sentOn, ← List.append_assoc]
          refine congrArg₂ _ ?_ rfl
          by_cases hj : connection = j
          · subst hj
            simp only [act, connections_on_self, Sending.send, SendQueue.enqueued_send,
              List.map_append, if_true]
            rfl
          · rw [act, connections_on_of_ne w hj, if_neg hj, List.append_nil]
      | complete connection i lock ec =>
          refine congrArg₂ _ ?_ rfl
          by_cases hj : connection = j
          · subst hj
            simp only [act, connections_on_self, Sending.complete, SendQueue.enqueued_complete]
          · rw [act, connections_on_of_ne w hj]
      | handle connection i =>
          refine congrArg₂ _ ?_ rfl
          by_cases hj : connection = j
          · subst hj
            simp only [act, connections_on_self, Sending.handle, SendQueue.enqueued_handle]
          · rw [act, connections_on_of_ne w hj]

/-- **Each connection serves its callers.** -/
theorem Inv.serves {w : World ι μ κ} (h : w.Inv) (j : ι) {sent : List (SendQueue.Entry Bytes κ)}
    (hsent : (w.connections j).sendQueue.enqueued.map (SendQueue.Entry.map OutData.frame) = sent) :
    SendQueue.Serves (fun w : World ι μ κ => (w.connections j).sendQueue)
      (fun w ec => act w (.complete j 0 true ec)) (fun w i => act w (.handle j i)) OutData.frame
      sent w := by
  refine SendQueue.Sound.serves (h j).sendQueue hsent ?_ ?_
  · intro ec
    simp only [act, connections_on_self, Sending.complete]
  · intro w i
    simp only [act, connections_on_self, Sending.handle]

end act

/-- Two sends of one content of a message, with one opcode, are sends of the same bytes, whichever
connections they are made on. -/
theorem Inv.frame_eq {w : World ι μ κ} (h : w.Inv) {i j : ι}
    {e e' : SendQueue.Entry (OutData μ) κ} (he : e ∈ (w.connections i).sendQueue.enqueued)
    (he' : e' ∈ (w.connections j).sendQueue.enqueued)
    (hmessage : e.data.outMessage = e'.data.outMessage)
    (hversion : e.data.version = e'.data.version)
    (hopcode : e.data.finRsvOpcode = e'.data.finRsvOpcode) : e.data.frame = e'.data.frame := by
  have hcontent := ((h i).recorded e he).content
  rw [hmessage, hversion, ((h j).recorded e' he').content, Option.some_inj] at hcontent
  rw [OutData.frame, OutData.frame, hcontent, hopcode]

end World

end Server

/-! ### The client -/

namespace Client.Sending

variable {κ : Type*}

/-- What can happen to the send queue of the client.  `mask` is what the random device returns to
the call of `send`. -/
inductive Act (κ : Type*)
  | send (outMessage : Bytes) (callback : Option κ) (finRsvOpcode : UInt8) (mask : Mask)
  | complete (i : ℕ) (lock : Bool) (ec : Option ErrorCode)
  | handle (i : ℕ)

/-- The same on the queue, of which the entries are finished frames. -/
def Act.queued : Act κ → SendQueue.Act Bytes κ ErrorCode
  | .send outMessage callback finRsvOpcode mask =>
      .send ⟨outData mask outMessage finRsvOpcode, callback⟩
  | .complete i lock ec => .complete i lock ec
  | .handle i => .handle i

def act (q : SendQueue Bytes κ ErrorCode) (a : Act κ) : SendQueue Bytes κ ErrorCode :=
  SendQueue.act q a.queued

/-- Outstanding writes complete, and handlers go on, as long as handlers may run. -/
def Allowed (q : SendQueue Bytes κ ErrorCode) (a : Act κ) : Prop := SendQueue.Allowed q a.queued

/-- What a whole run preserves. -/
theorem sound_foldl {q : SendQueue Bytes κ ErrorCode} (h : q.Sound) {as : List (Act κ)}
    (has : Machine.Along act Allowed q as) : (as.foldl act q).Sound := by
  induction as generalizing q with
  | nil => exact h
  | cons a as ih => exact ih (h.act has.1) has.2

/-- The frame that a step puts on the queue, with its callback. -/
def Act.sent? : Act κ → Option (SendQueue.Entry Bytes κ)
  | .send outMessage callback finRsvOpcode mask =>
      some ⟨outData mask outMessage finRsvOpcode, callback⟩
  | .complete _ _ _ => none
  | .handle _ => none

/-- **The entries of the queue are the frames that have been sent**, in order. -/
theorem enqueued_foldl (q : SendQueue Bytes κ ErrorCode) (as : List (Act κ)) :
    (as.foldl act q).enqueued = q.enqueued ++ as.filterMap Act.sent? := by
  induction as generalizing q with
  | nil => simp
  | cons a as ih =>
      rw [List.foldl_cons, ih]
      cases a with
      | send outMessage callback b mask =>
          simp [act, Act.queued, SendQueue.act, Act.sent?]
      | complete i lock ec =>
          rw [List.filterMap_cons_none rfl]
          simp [act, Act.queued, SendQueue.act]
      | handle i =>
          rw [List.filterMap_cons_none rfl]
          simp [act, Act.queued, SendQueue.act]

end Client.Sending

/-! ### Both -/

/-- **The send queue loses, duplicates and interleaves nothing**, on the server and on the client,
in every run of sends, completions and callbacks.  The entries of a queue are the frames of the calls of
`send`, in order, each with its callback; the queue serves its callers (`SendQueue.Serves`).  On the
server the bytes that an outstanding write is given are those of the frame that `send` was asked for,
what has been transmitted on a connection are the frames of its writes that have succeeded, and a
message sent on several connections is transmitted by each as the same bytes. -/
theorem send_queue_sound {ι μ κ : Type*} [DecidableEq ι] [DecidableEq μ] :
    (∀ as : List (Server.World.Act ι μ κ),
      Machine.Along Server.World.act Server.World.Allowed {} as →
      ∀ w, w = as.foldl Server.World.act {} →
      (∀ j,
        SendQueue.Serves (fun w : Server.World ι μ κ => (w.connections j).sendQueue)
          (fun w ec => w.act (.complete j 0 true ec)) (fun w i => w.act (.handle j i))
          Server.OutData.frame (Server.World.sentOn j (fun _ => []) as) w ∧
        (∀ d ∈ (w.connections j).sendQueue.outstanding,
          Server.buffers w.outMessages d = d.frame) ∧
        (w.connections j).transmitted =
          (w.connections j).sendQueue.written.map Server.OutData.frame) ∧
      ∀ i j, ∀ e ∈ (w.connections i).sendQueue.enqueued,
        ∀ e' ∈ (w.connections j).sendQueue.enqueued,
        e.data.outMessage = e'.data.outMessage → e.data.version = e'.data.version →
        e.data.finRsvOpcode = e'.data.finRsvOpcode → e.data.frame = e'.data.frame) ∧
    ∀ as : List (Client.Sending.Act κ),
      Machine.Along Client.Sending.act Client.Sending.Allowed {} as →
      SendQueue.Serves id (fun q ec => Client.Sending.act q (.complete 0 true ec))
        (fun q i => Client.Sending.act q (.handle i)) id (as.filterMap Client.Sending.Act.sent?)
        (as.foldl Client.Sending.act {}) := by
  refine ⟨?_, ?_⟩
  · rintro as has w rfl
    have hinv : (as.foldl Server.World.act ({} : Server.World ι μ κ)).Inv :=
      Server.World.inv_foldl (fun _ => Server.Sending.sound_init _) has
    refine ⟨?_, ?_⟩
    · intro j
      exact ⟨hinv.serves j (Server.World.enqueued_foldl {} j as),
        fun d hd => (hinv j).buffers_outstanding hd, (hinv j).transmitted⟩
    · intro i j e he e' he' hmessage hversion hopcode
      exact hinv.frame_eq he he' hmessage hversion hopcode
  · intro as has
    refine SendQueue.Sound.serves ?_ ?_ ?_ ?_
    · exact Client.Sending.sound_foldl SendQueue.sound_init has
    · rw [id, Client.Sending.enqueued_foldl]
      exact List.map_id _
    · exact fun _ => rfl
    · exact fun _ _ => rfl

/-- A message is sent on two connections, on the second twice; the first has transmitted it, and called
its callback. -/
def broadcast : List (Server.World.Act Bool Unit ℕ) :=
  [.alter () (ascii "hi"), .send false () (some 1) 0x81, .send true () (some 2) 0x81,
    .send true () (some 3) 0x82, .complete false 0 true none, .handle false 0]

/-- A message has been transmitted, its callback is still to be called, and two more have been sent. -/
def clientSends : List (Client.Sending.Act ℕ) :=
  [.send (ascii "a") (some 1) 0x81 fun _ => 7, .complete 0 true none,
    .send (ascii "b") (some 2) 0x81 fun _ => 1, .send (ascii "c") (some 3) 0x82 fun _ => 2]

theorem along_broadcast :
    Machine.Along Server.World.act Server.World.Allowed ({} : Server.World Bool Unit ℕ)
      broadcast := by
  have hnone : Server.World.Allowed ({} : Server.World Bool Unit ℕ) (.alter () (ascii "hi")) :=
    fun _ _ he => by cases he
  exact ⟨hnone, trivial, trivial, trivial, ⟨Nat.one_pos, rfl⟩, Nat.one_pos, trivial⟩

theorem along_clientSends :
    Machine.Along Client.Sending.act Client.Sending.Allowed ({} : SendQueue Bytes ℕ ErrorCode)
      clientSends :=
  ⟨trivial, ⟨Nat.one_pos, rfl⟩, trivial, trivial, trivial⟩

/-- On both ends the writes fail then, and the handlers call the callbacks that were queued. -/
theorem send_queue_sound_broadcast :
    ((broadcast.foldl Server.World.act {}).connections false).transmitted =
        [Server.outData (ascii "hi") 0x81] ∧
      ((List.foldl Server.World.act (broadcast.foldl Server.World.act {})
        [.complete true 0 true (some (.transport 32)), .handle true 0, .handle true 0,
          .handle true 0]).connections true).sendQueue.called =
        [(2, some (.transport 32)), (3, some (.transport 32))] ∧
      (List.foldl Client.Sending.act (clientSends.foldl Client.Sending.act {})
        [.complete 0 true (some (.transport 104)), .handle 1, .handle 1, .handle 1]).called =
        [(2, some (.transport 104)), (3, some (.transport 104))] ∧
      (clientSends.foldl Client.Sending.act {}).enqueued.map SendQueue.Entry.data =
        [Client.outData (fun _ => 7) (ascii "a") 0x81, Client.outData (fun _ => 1) (ascii "b") 0x81,
          Client.outData (fun _ => 2) (ascii "c") 0x82] := by
  have hserver := (@send_queue_sound Bool Unit ℕ _ _).1 broadcast along_broadcast _ rfl
  have hclient := (@send_queue_sound Bool Unit ℕ _ _).2 clientSends along_clientSends
  refine ⟨?_, ?_, ?_, ?_⟩
  · rw [(hserver.1 false).2.2]
    rfl
  · exact ((hserver.1 true).1.fails (by decide) (.transport 32)).2.2
  · exact (hclient.fails (by decide) (.transport 104)).2.2
  · have hsent := hclient.enqueued
    rw [← List.map_id (clientSends.foldl Client.Sending.act {}).enqueued]
    exact congrArg (List.map SendQueue.Entry.data) hsent

end SimpleWeb
