/-
**What the listeners are told of a message.**

The socket layer hands a message to `on_message`; `SimpleWebSocketServer`, `SimpleWebSocketClient` and
their secure variants tell their listeners about it, text as a string and binary data as a block.  There
are four copies of the function that does so.  Two of them make the block from the contents of the
message.  The other two make it from `binary`, which is not a member of the message but one of
`std::ios_base`: a block of that many bytes, with anything in it.

A listener's call of a callback is logged with the listener.  A block that is made with a size only has
the contents of the memory it is in, which may be different at each call.

Main definitions:

* `SimpleWeb.Memory` — what is in memory that has not been written;
* `SimpleWeb.ListenerList.call` — each listener is called;
* `SimpleWeb.SimpleWebSocketServer.onMessageCallback` and the other three — the copies;
* `SimpleWeb.SameData` — the secure variants tell the same as the others.

Main results:

* `SimpleWeb.blocks_onMessages` — the plain copies hand over the payloads of the binary messages;
* `SimpleWeb.sameData_iff` — **for which messages the secure copies do the same**;
* `SimpleWeb.not_sameData` — three bytes of binary data.
-/

import SimpleWeb.Message

set_option relaxedAutoImplicit false
set_option autoImplicit false

namespace SimpleWeb

/-! ### Blocks and listeners -/

/-- What is in the memory that has not been written, at each call. -/
structure Memory where
  contents : ℕ → ℕ → Bytes
  length_contents : ∀ time size, (contents time size).length = size

/-- Memory that is full of one byte. -/
def Memory.full (b : UInt8) : Memory where
  contents _ size := List.replicate size b
  length_contents _ _ := List.length_replicate

/-- `MemoryBlock(data, size)`. -/
def memoryBlock (data : Bytes) (size : UInt64) : Bytes := data.take size.toNat

/-- A call of a listener; that of a server is also told the connection. -/
inductive Received (κ : Type)
  | messageReceived (id : κ) (message : Bytes)
  | dataReceived (id : κ) (data : Bytes)
  deriving DecidableEq

/-- The block that is handed over. -/
def Received.block? {κ : Type} : Received κ → Option Bytes
  | .messageReceived _ _ => none
  | .dataReceived _ data => some data

variable {ι κ : Type}

/-- `ListenerList::call`.  An argument that has to be converted is converted at each call. -/
def ListenerList.call (listeners : List ι) (callback : ℕ → Received κ)
    (calls : List (ι × Received κ)) : List (ι × Received κ) :=
  listeners.foldl (fun calls listener => calls ++ [(listener, callback calls.length)]) calls

/-! ### The four functions -/

section Callbacks

variable (string : Bytes → Bytes) (memory : Memory) (binary : ℕ) (listeners : List ι)

/-- `onMessageCallback` where the block is made from the contents. -/
def onMessage (id : κ) (inMessage : InMessage) (calls : List (ι × Received κ)) :
    List (ι × Received κ) :=
  if inMessage.finRsvOpcode = 129 then
    ListenerList.call listeners (fun _ => .messageReceived id (string inMessage.string)) calls
  else if inMessage.finRsvOpcode = 130 then
    let b := memoryBlock inMessage.string inMessage.size
    ListenerList.call listeners (fun _ => .dataReceived id b) calls
  else calls -- 136 is only logged

/-- `onMessageCallback` where the block is made from `binary`. -/
def onMessageBinary (id : κ) (inMessage : InMessage) (calls : List (ι × Received κ)) :
    List (ι × Received κ) :=
  if inMessage.finRsvOpcode = 129 then
    ListenerList.call listeners (fun _ => .messageReceived id (string inMessage.string)) calls
  else if inMessage.finRsvOpcode = 130 then
    ListenerList.call listeners (fun time => .dataReceived id (memory.contents time binary)) calls
  else calls

/-- `id` is the `getConnectionString` of the connection. -/
def SimpleWebSocketServer.onMessageCallback (id : Bytes) (inMessage : InMessage) :
    List (ι × Received Bytes) → List (ι × Received Bytes) :=
  onMessage string listeners id inMessage

def SecureWebSocketServer.onMessageCallback (id : Bytes) (inMessage : InMessage) :
    List (ι × Received Bytes) → List (ι × Received Bytes) :=
  onMessageBinary string memory binary listeners id inMessage

def SimpleWebSocketClient.onMessageCallback (inMessage : InMessage) :
    List (ι × Received Unit) → List (ι × Received Unit) :=
  onMessage string listeners () inMessage

def SecureWebSocketClient.onMessageCallback (inMessage : InMessage) :
    List (ι × Received Unit) → List (ι × Received Unit) :=
  onMessageBinary string memory binary listeners () inMessage

/-- The blocks that the listeners are handed. -/
def blocks (calls : List (ι × Received κ)) : List (ι × Bytes) :=
  calls.filterMap fun c => c.2.block?.map (c.1, ·)

/-- Each listener is handed the payload of each binary message once. -/
def payloads (messages : List (UInt8 × Bytes)) : List (ι × Bytes) :=
  messages.flatMap fun m => if m.1 = 130 then listeners.map (·, m.2) else []

/-- What the listeners are told of some messages, one after the other. -/
def told {α : Type} (callback : α → List (ι × Received κ) → List (ι × Received κ))
    (messages : List α) : List (ι × Received κ) :=
  messages.foldl (fun calls m => callback m calls) []

/-- Whatever memory there is, the listeners of the secure server and of the secure client are told what
those of the others are, and are handed the payloads of the binary messages. -/
def SameData (messages : List (Bytes × UInt8 × Bytes)) : Prop :=
  ∀ memory : Memory,
    let secureServer := told (fun m => SecureWebSocketServer.onMessageCallback string memory binary
      listeners m.1 (InMessage.of m.2)) messages
    let secureClient := told (fun m => SecureWebSocketClient.onMessageCallback string memory binary
      listeners (InMessage.of m.2)) messages
    (secureServer = told (fun m => SimpleWebSocketServer.onMessageCallback string listeners m.1
        (InMessage.of m.2)) messages ∧
      blocks secureServer = payloads listeners (messages.map Prod.snd)) ∧
    secureClient = told (fun m => SimpleWebSocketClient.onMessageCallback string listeners
        (InMessage.of m.2)) messages ∧
      blocks secureClient = payloads listeners (messages.map Prod.snd)

end Callbacks

variable {string : Bytes → Bytes} {memory : Memory} {binary : ℕ} {listeners : List ι} {id : κ}

/-! ### Calls -/

@[simp] theorem ListenerList.call_nil (callback : ℕ → Received κ) (calls : List (ι × Received κ)) :
    ListenerList.call [] callback calls = calls := rfl

/-- Each listener is called once, in order. -/
theorem ListenerList.call_const (c : Received κ) (calls : List (ι × Received κ)) :
    ListenerList.call listeners (fun _ => c) calls = calls ++ listeners.map (·, c) := by
  induction listeners generalizing calls with
  | nil => simp
  | cons l listeners ih =>
      rw [ListenerList.call, List.foldl_cons]
      exact (ih (calls ++ [(l, c)])).trans (by simp)

/-- The calls that there were stay. -/
theorem ListenerList.call_append (listeners : List ι) (callback : ℕ → Received κ) (calls : List (ι × Received κ)) :
    ∃ more : List (ι × Received κ),
      ListenerList.call listeners callback calls = calls ++ more ∧
      more.map Prod.fst = listeners ∧ ∀ c ∈ more, ∃ time, c.2 = callback time := by
  induction listeners generalizing calls with
  | nil => exact ⟨[], by simp, rfl, by simp⟩
  | cons l listeners ih =>
      obtain ⟨more, heq, hlisteners, hcallback⟩ := ih (calls ++ [(l, callback calls.length)])
      refine ⟨(l, callback calls.length) :: more, ?_, by simp [hlisteners], ?_⟩
      · rw [ListenerList.call, List.foldl_cons]
        exact heq.trans (by simp)
      · rintro c (_ | hc)
        · exact ⟨_, rfl⟩
        · exact hcallback c (by assumption)

@[simp] theorem blocks_append (calls more : List (ι × Received κ)) :
    blocks (calls ++ more) = blocks calls ++ blocks more := List.filterMap_append

@[simp] theorem blocks_dataReceived (data : Bytes) :
    blocks (listeners.map (·, Received.dataReceived id data)) = listeners.map (·, data) := by
  simp [blocks, List.filterMap_map, Received.block?]

@[simp] theorem blocks_messageReceived (message : Bytes) :
    blocks (listeners.map (·, Received.messageReceived id message)) = [] := by
  simp [blocks, List.filterMap_map, Received.block?]

@[simp] theorem onMessage_nil (inMessage : InMessage) (calls : List (ι × Received κ)) :
    onMessage string [] id inMessage calls = calls := by
  simp [onMessage]

@[simp] theorem onMessageBinary_nil (inMessage : InMessage) (calls : List (ι × Received κ)) :
    onMessageBinary string memory binary [] id inMessage calls = calls := by
  simp [onMessageBinary]

/-! ### The plain copies -/

/-- A binary message is handed to each listener, with its payload. -/
theorem blocks_onMessage {m : UInt8 × Bytes} (h : m.1 = 130 → m.2.length < 2 ^ 64)
    (calls : List (ι × Received κ)) :
    blocks (onMessage string listeners id (InMessage.of m) calls) =
      blocks calls ++ if m.1 = 130 then listeners.map (·, m.2) else [] := by
  unfold onMessage
  split
  · next htext =>
      have hbinary : m.1 ≠ 130 := by
        rw [show m.1 = 129 from htext]
        decide
      rw [ListenerList.call_const, blocks_append, blocks_messageReceived, if_neg hbinary]
  split
  · next hbinary =>
      have hblock : memoryBlock (InMessage.of m).string (InMessage.of m).size = m.2 := by
        show m.2.take (UInt64.ofNat m.2.length).toNat = m.2
        rw [UInt64.toNat_ofNat', Nat.mod_eq_of_lt (h hbinary), List.take_length]
      rw [ListenerList.call_const, blocks_append, blocks_dataReceived, hblock,
        if_pos (show m.1 = 130 from hbinary)]
  · next hbinary =>
      rw [if_neg (show ¬ m.1 = 130 from hbinary), List.append_nil]

/-- **A plain copy hands over the payloads of the binary messages**, and nothing else. -/
theorem blocks_onMessages (id : Bytes → κ) {messages : List (Bytes × UInt8 × Bytes)}
    (h : ∀ m ∈ messages, m.2.1 = 130 → m.2.2.length < 2 ^ 64) :
    blocks (told (fun m => onMessage string listeners (id m.1) (InMessage.of m.2)) messages) =
      payloads listeners (messages.map Prod.snd) := by
  have hrun : ∀ calls, blocks (messages.foldl (fun calls m =>
      onMessage string listeners (id m.1) (InMessage.of m.2) calls) calls) =
      blocks calls ++ payloads listeners (messages.map Prod.snd) := by
    induction messages with
    | nil =>
        intro calls
        simp [payloads]
    | cons m messages ih =>
        intro calls
        rw [List.foldl_cons, ih (fun m' hm' => h m' (List.mem_cons_of_mem m hm')),
          blocks_onMessage (h m List.mem_cons_self)]
        simp [payloads]
  exact hrun []

/-! ### The secure copies -/

/-- A message that is not binary is handled alike. -/
theorem onMessageBinary_eq {inMessage : InMessage} (h : inMessage.finRsvOpcode ≠ 130)
    (calls : List (ι × Received κ)) :
    onMessageBinary string memory binary listeners id inMessage calls =
      onMessage string listeners id inMessage calls := by
  rw [onMessageBinary, onMessage, if_neg h, if_neg h]

/-- A block is made from unwritten memory. -/
theorem mem_blocks_onMessageBinary {inMessage : InMessage} {calls : List (ι × Received κ)}
    {b : ι × Bytes} (h : b ∈ blocks (onMessageBinary string memory binary listeners id inMessage calls)) :
    b ∈ blocks calls ∨ ∃ time, b.2 = memory.contents time binary := by
  unfold onMessageBinary at h
  split at h
  · rw [ListenerList.call_const, blocks_append, blocks_messageReceived, List.append_nil] at h
    exact Or.inl h
  split at h
  · obtain ⟨more, heq, -, hcallback⟩ := ListenerList.call_append listeners
      (fun time => Received.dataReceived id (memory.contents time binary)) calls
    rw [heq, blocks_append] at h
    rcases List.mem_append.1 h with h | h
    · exact Or.inl h
    · obtain ⟨c, hc, hblock⟩ := List.mem_filterMap.1 h
      obtain ⟨time, htime⟩ := hcallback c hc
      rw [htime] at hblock
      obtain rfl := Option.some.inj hblock
      exact Or.inr ⟨time, rfl⟩
  · exact Or.inl h

theorem mem_blocks_secure {messages : List (Bytes × UInt8 × Bytes)} {b : ι × Bytes}
    (h : b ∈ blocks (told (fun m => SecureWebSocketServer.onMessageCallback string memory binary
      listeners m.1 (InMessage.of m.2)) messages)) :
    ∃ time, b.2 = memory.contents time binary := by
  refine List.foldlRecOn messages _ (motive := fun calls =>
    ∀ b ∈ blocks calls, ∃ time, b.2 = memory.contents time binary) ?_ ?_ b h
  · rintro b hb
    cases hb
  · intro calls ih m _ b hb
    rcases mem_blocks_onMessageBinary hb with hb | htime
    · exact ih b hb
    · exact htime

/-- Without binary messages a secure copy tells what the plain one does. -/
theorem told_onMessageBinary {messages : List (Bytes × UInt8 × Bytes)}
    (h : listeners = [] ∨ ∀ m ∈ messages, m.2.1 ≠ 130) (id : Bytes → κ) :
    told (fun m => onMessageBinary string memory binary listeners (id m.1) (InMessage.of m.2))
      messages =
      told (fun m => onMessage string listeners (id m.1) (InMessage.of m.2)) messages ∧
    blocks (told (fun m => onMessage string listeners (id m.1) (InMessage.of m.2)) messages) =
      payloads listeners (messages.map Prod.snd) := by
  rcases h with rfl | h
  · constructor
    · refine List.foldl_ext _ _ _ ?_
      intro calls m _
      exact (onMessageBinary_nil _ calls).trans (onMessage_nil _ calls).symm
    · simp [told, payloads, onMessage_nil, blocks]
  · constructor
    · refine List.foldl_ext _ _ _ ?_
      intro calls m hm
      exact onMessageBinary_eq (h m hm) calls
    · exact blocks_onMessages id fun m hm hbinary => absurd hbinary (h m hm)

/-- **The secure variants tell the same data exactly when there are no binary messages**, or nobody to
tell. -/
theorem sameData_iff {binary : ℕ} (hbinary : 0 < binary) (string : Bytes → Bytes)
    (listeners : List ι) (messages : List (Bytes × UInt8 × Bytes)) :
    SameData string binary listeners messages ↔
      listeners = [] ∨ ∀ m ∈ messages, m.2.1 ≠ 130 := by
  constructor
  · intro h
    by_contra hbad
    obtain ⟨hlisteners, hmessages⟩ := not_or.1 hbad
    push Not at hmessages
    obtain ⟨m, hm, hopcode⟩ := hmessages
    obtain ⟨l, hl⟩ := List.exists_mem_of_ne_nil listeners hlisteners
    have hpayload : (l, m.2.2) ∈ payloads listeners (messages.map Prod.snd) := by
      refine List.mem_flatMap.2 ⟨m.2, List.mem_map_of_mem hm, ?_⟩
      rw [if_pos hopcode]
      exact List.mem_map_of_mem hl
    -- the payload is what two different memories have
    have hfull : ∀ b : UInt8, m.2.2 = List.replicate binary b := by
      intro b
      have hblock := hpayload
      rw [← (h (Memory.full b)).1.2] at hblock
      obtain ⟨time, htime⟩ := mem_blocks_secure hblock
      exact htime
    have hzero := (hfull 0).symm.trans (hfull 1)
    rw [List.replicate_right_inj (by omega)] at hzero
    exact absurd hzero (by decide)
  · intro h memory
    obtain ⟨hserver, hserverBlocks⟩ := told_onMessageBinary h fun id => id
    obtain ⟨hclient, hclientBlocks⟩ := told_onMessageBinary h fun _ => ()
    refine ⟨⟨hserver, ?_⟩, hclient, ?_⟩
    · exact (congrArg blocks hserver).trans hserverBlocks
    · exact (congrArg blocks hclient).trans hclientBlocks

/-- One listener and two texts. -/
theorem sameData_iff_texts :
    0 < 4 ∧ SameData (fun s => s) 4 [()] [(ascii "127.0.0.1:50000", 129, ascii "a"),
      (ascii "127.0.0.1:50001", 129, [])] :=
  ⟨by decide, (sameData_iff (by decide) _ _ _).2 (Or.inr (by simp))⟩

/-- Three bytes arrive, and the listeners of the secure variants are handed four others. -/
theorem not_sameData :
    ¬ SameData (fun s => s) 4 [()] [(ascii "127.0.0.1:50000", 130, [1, 2, 3])] := by
  intro h
  exact absurd (h (Memory.full 0)).1.2 (by decide)

end SimpleWeb
