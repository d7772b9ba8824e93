/-
**The timeouts of a WebSocket connection.**

A connection of `websocket/server_ws.hpp` or `websocket/client_ws.hpp` has one timer, for its reads,
its writes and its handshake.  `set_timeout` is called before each operation is started, and by the
handler of a write before anything else; the other handlers begin with `cancel_timeout`.  A timer that
runs out closes the socket; on a client whose timer was set with `timeout_idle` it sends a close frame.

The two sides differ in their stages only, which are the parameter `Line` here.  Cancelling a timer
and setting it to null are the same, since the handler of a cancelled one does nothing.

Main definitions:

* `SimpleWeb.Timeouts` — the two timeouts of a configuration;
* `SimpleWeb.Line`, `SimpleWeb.Line.Lawful` — the stages of a connection, and what they satisfy;
* `SimpleWeb.Timed`, `SimpleWeb.Timed.act` — a connection with its send queue and its timer;
* `SimpleWeb.Timed.Orphan` — the read loop has ended while a write was outstanding, which still is.

Main results:

* `SimpleWeb.Timed.inv_act` — what one step preserves;
* `SimpleWeb.Timed.silent_lt`, `SimpleWeb.Timed.waited_of_shut` — **a connection is closed if nothing
  happens for the time allowed, and not before**;
* `SimpleWeb.Timed.unwatched_iff` — **which writes are not watched**.
-/

import SimpleWeb.Transport
import SimpleWeb.Watch

set_option relaxedAutoImplicit false
set_option autoImplicit false

namespace SimpleWeb

/-! ### The timer -/

/-- What a timer is set for, which says the argument of `set_timeout`: `timeout_request`, or none, and
then it is `timeout_idle`. -/
inductive Timeout
  | request
  | idle
  deriving DecidableEq, Repr

/-- The timeouts of a configuration, in seconds, and how often the clock ticks in one. -/
structure Timeouts (κ : Type) where
  seconds : κ → ℕ
  ticksPerSecond : ℕ := 1

namespace Timeouts

variable {κ : Type} (t : Timeouts κ)

def limit (p : κ) : ℕ := t.seconds p * t.ticksPerSecond

/-- `set_timeout`: there is no timer when the time is zero. -/
def setTimeout (p : κ) : Watch.Op κ := if t.seconds p = 0 then .clear else .set p

/-- `cancel_timeout`. -/
def cancelTimeout : Watch.Op κ := .clear

theorem touches_setTimeout (p : κ) : (t.setTimeout p).Touches := by
  unfold setTimeout
  split <;> trivial

/-- Setting a timer takes no time. -/
theorem setTimeout_ne (p : κ) : t.setTimeout p ≠ .tick ∧ t.setTimeout p ≠ .runOut := by
  unfold setTimeout
  split <;> simp

/-- A timer that has just been set watches. -/
theorem guards_setTimeout {p : κ} (hp : t.seconds p ≠ 0) (w : Watch κ) :
    (w.op t.limit (t.setTimeout p)).Guards (t.limit p) := by
  rw [setTimeout, if_neg hp]
  exact w.guards_set p

/-- What the timer is set for. -/
theorem timer_setTimeout (p : κ) (w : Watch κ) {deadline : ℕ} {q : κ}
    (h : (w.op t.limit (t.setTimeout p)).timer = some (deadline, q)) :
    q = p ∧ t.seconds p ≠ 0 := by
  unfold setTimeout at h
  split at h
  · cases h
  · next hp => exact ⟨(Prod.mk.inj (Option.some.inj h)).2.symm, hp⟩

end Timeouts

/-- The default timeouts of `Config` in `websocket/server_ws.hpp`. -/
def Server.timeouts : Timeouts Timeout where
  seconds
    | .request => 5
    | .idle => 0

/-! ### A connection with its timer -/

/-- The stages of a connection: what its actions do, and what has been logged; the operation that is
outstanding, with its timeout, other than the writes of the send queue; which actions are handlers of
that operation; whether the handshake is over; whether a close frame has been sent, after which the
timer does no more; which actions close the socket; and what a timer that was set with `timeout_idle`
does, if not that. -/
structure Line (σ α : Type*) where
  act : σ → α → σ
  log : σ → List Event
  waits : σ → Option Timeout
  handles : σ → α → Bool
  opened : σ → Bool
  gaveUp : σ → Bool
  closes : σ → α → Bool
  onIdle : Option α

/-- A connection, its send queue, its timer, and whether its socket has been shut down. -/
structure Timed (σ : Type*) where
  stage : σ
  sendQueue : SendQueue Bytes Unit ErrorCode := {}
  watch : Watch Timeout := {}
  shut : Bool := false

namespace Timed

variable {σ α : Type*} (L : Line σ α) (t : Timeouts Timeout)

/-- What can happen: an action of the connection; the outstanding write is completed; time passes; the
timer runs out; the handler of a timer that has run out is run. -/
inductive Act (α : Type*)
  | act (a : α)
  | written (lock : Bool) (ec : Option ErrorCode)
  | tick
  | runOut
  | expired

/-- The frames that an action puts on the send queue. -/
def frames (s : Timed σ) (a : α) : List Bytes :=
  newlyEnqueued (L.log s.stage) (L.log (L.act s.stage a))

/-- The calls of `set_timeout` when an operation is started. -/
def starts (s : σ) : List (Watch.Op Timeout) := (L.waits s).toList.map t.setTimeout

/-- The calls of an action: a handler first cancels the timer; `send_from_queue` sets it, if the queue
was empty; and so does the next operation. -/
def callsOfAct (s : Timed σ) (a : α) : List (Watch.Op Timeout) :=
  (if L.handles s.stage a then [Timeouts.cancelTimeout] else []) ++
    ((if s.sendQueue.queue = [] ∧ frames L s a ≠ [] then [t.setTimeout .idle] else []) ++
      if L.handles s.stage a then starts L t (L.act s.stage a) else [])

/-- An action, with what it puts on the send queue. -/
def perform (s : Timed σ) (a : α) : Timed σ where
  stage := L.act s.stage a
  sendQueue := ((frames L s a).map fun frame => ⟨frame, none⟩).foldl SendQueue.send s.sendQueue
  watch := s.watch.ops t.limit (callsOfAct L t s a)
  shut := s.shut || L.closes s.stage a

/-- The calls of the handler of a write: it sets the timer for the next send, and sets it again if
there is one. -/
def callsOfWritten (s : Timed σ) (lock : Bool) (ec : Option ErrorCode) :
    List (Watch.Op Timeout) :=
  if s.sendQueue.outstanding = [] then []
  else
    t.setTimeout .idle ::
      if (s.sendQueue.complete 0 lock ec).outstanding = [] then [] else [t.setTimeout .idle]

/-- The handler of a timer that has run out. -/
def onExpired (s : Timed σ) : Timed σ :=
  match s.watch.expired with
  | [] => s
  | p :: _ =>
      let s := { s with watch := s.watch.op t.limit .handle }
      match p, L.onIdle with
      | .idle, some a => perform L t s a
      | _, _ => { s with shut := true }

/-- Its calls. -/
def callsOfExpired (s : Timed σ) : List (Watch.Op Timeout) :=
  match s.watch.expired with
  | [] => []
  | p :: _ =>
      .handle ::
        match p, L.onIdle with
        | .idle, some a => callsOfAct L t s a
        | _, _ => []

def act (s : Timed σ) : Act α → Timed σ
  | .act a => perform L t s a
  | .written lock ec =>
      { s with
        sendQueue := s.sendQueue.complete 0 lock ec
        watch := s.watch.ops t.limit (callsOfWritten t s lock ec) }
  | .tick => { s with watch := s.watch.op t.limit .tick }
  | .runOut => { s with watch := s.watch.op t.limit .runOut }
  | .expired => onExpired L t s

/-- What a step calls on the timer. -/
def calls (s : Timed σ) : Act α → List (Watch.Op Timeout)
  | .act a => callsOfAct L t s a
  | .written lock ec => callsOfWritten t s lock ec
  | .tick => [.tick]
  | .runOut => [.runOut]
  | .expired => callsOfExpired L t s

/-- A connection in its first stage, of which the operation has been started. -/
def start (s : σ) : Timed σ :=
  { stage := s, watch := ({} : Watch Timeout).ops t.limit (starts L t s) }

/-- The states of a run. -/
def run (s : σ) (acts : List (Act α)) : Timed σ := acts.foldl (act L t) (start L t s)

/-- **Nothing happens** to a connection: no handler of an operation runs and no write is started.
Time may pass, and the program may send, as long as a write is outstanding. -/
abbrev Silent (s : Timed σ) (a : Act α) : Prop := Watch.Silent (calls L t) s a

/-- The read loop was ended by a handler while a write was outstanding, and that write still is. -/
def Orphan (s : σ) (acts : List (Act α)) : Prop :=
  ∃ pre a post, acts = pre ++ .act a :: post ∧ L.waits (run L t s pre).stage ≠ none ∧
    L.waits (L.act (run L t s pre).stage a) = none ∧
    (run L t s pre).sendQueue.outstanding ≠ [] ∧
    ∀ lock ec, .written lock ec ∉ post

end Timed

/-- What the stages of a connection satisfy.  Only the handlers of the outstanding operation start
another; the timeout of the handshake is `timeout_request`, and afterwards it is `timeout_idle`; only
an opened connection sends; and what a timer set with `timeout_idle` does is to send a close frame,
and not to close the socket. -/
structure Line.Lawful {σ α : Type*} (L : Line σ α) : Prop where
  waits_act : ∀ s a, L.handles s a = false → L.waits (L.act s a) = L.waits s
  waits_of_handles : ∀ s a, L.handles s a = true → L.waits s ≠ none
  waits_opened : ∀ s p, L.waits s = some p → (L.opened s = true ↔ p = .idle)
  opened_act : ∀ s a, L.opened s = true → L.opened (L.act s a) = true
  handles_of_opens : ∀ s a, L.opened s = false → L.opened (L.act s a) = true →
    L.handles s a = true
  opened_of_sends : ∀ s a, L.opened s = false → newlyEnqueued (L.log s) (L.log (L.act s a)) = []
  gaveUp_act : ∀ s a, L.gaveUp s = true → L.gaveUp (L.act s a) = true
  gaveUp_onIdle : ∀ a, L.onIdle = some a → ∀ s, L.opened s = true →
    L.gaveUp (L.act s a) = true
  closes_onIdle : ∀ a, L.onIdle = some a → ∀ s, L.closes s a = false

namespace Timed

variable {σ α : Type*} {L : Line σ α} {t : Timeouts Timeout}

/-! ### One step -/

theorem works (L : Line σ α) (t : Timeouts Timeout) :
    Watch.Works t.limit (act L t) Timed.watch (calls L t) where
  act s a := by
    cases a with
    | act a => rfl
    | written lock ec => rfl
    | tick => rfl
    | runOut => rfl
    | expired =>
        simp only [act, calls, onExpired, callsOfExpired]
        cases s.watch.expired with
        | nil => rfl
        | cons p expired =>
            cases p with
            | request => rfl
            | idle => cases L.onIdle <;> rfl
  prompt s a := by
    have hset := t.setTimeout_ne
    have hact : ∀ a, ∀ o ∈ callsOfAct L t s a, o ≠ .tick ∧ o ≠ .runOut := by
      intro a o ho
      simp only [callsOfAct, List.mem_append, starts] at ho
      rcases ho with ho | ho | ho
      · split at ho
        · rw [List.mem_singleton.1 ho]
          simp [Timeouts.cancelTimeout]
        · cases ho
      · split at ho
        · rw [List.mem_singleton.1 ho]
          exact hset _
        · cases ho
      · split at ho
        · obtain ⟨p, -, rfl⟩ := List.mem_map.1 ho
          exact hset p
        · cases ho
    intro htouches o ho
    cases a with
    | act a => exact hact a o ho
    | written lock ec =>
        simp only [calls, callsOfWritten] at ho
        split at ho
        · cases ho
        · rcases List.mem_cons.1 ho with rfl | ho
          · exact hset _
          · split at ho
            · cases ho
            · rw [List.mem_singleton.1 ho]
              exact hset _
    | tick => simp [calls, Watch.Op.Touches] at htouches
    | runOut => simp [calls, Watch.Op.Touches] at htouches
    | expired =>
        simp only [calls, callsOfExpired] at ho
        split at ho
        · cases ho
        · rcases List.mem_cons.1 ho with rfl | ho
          · simp
          · split at ho
            · exact hact _ o ho
            · cases ho

/-- The calls of an action: none; only `cancel_timeout`, when a handler starts nothing; or a last one
of `set_timeout`. -/
theorem callsOfAct_cases (L : Line σ α) (t : Timeouts Timeout) (s : Timed σ) (a : α) :
    (L.handles s.stage a = false ∧ ¬ (s.sendQueue.queue = [] ∧ frames L s a ≠ []) ∧
      callsOfAct L t s a = []) ∨
    (L.handles s.stage a = true ∧ ¬ (s.sendQueue.queue = [] ∧ frames L s a ≠ []) ∧
      L.waits (L.act s.stage a) = none ∧ callsOfAct L t s a = [Timeouts.cancelTimeout]) ∨
    ∃ os p, callsOfAct L t s a = os ++ [t.setTimeout p] ∧
      ((p = .idle ∧ (s.sendQueue.queue = [] ∧ frames L s a ≠ []) ∧
          (L.handles s.stage a = true → L.waits (L.act s.stage a) = none)) ∨
        L.handles s.stage a = true ∧ L.waits (L.act s.stage a) = some p) := by
  unfold callsOfAct starts
  cases hhandles : L.handles s.stage a with
  | false =>
      by_cases hsends : s.sendQueue.queue = [] ∧ frames L s a ≠ []
      · exact Or.inr (Or.inr ⟨[], .idle, by simp [hsends], Or.inl ⟨rfl, hsends, by simp⟩⟩)
      · exact Or.inl ⟨rfl, hsends, by simp [hsends]⟩
  | true =>
      cases hwaits : L.waits (L.act s.stage a) with
      | none =>
          by_cases hsends : s.sendQueue.queue = [] ∧ frames L s a ≠ []
          · refine Or.inr (Or.inr ⟨[Timeouts.cancelTimeout], .idle, ?_, ?_⟩)
            · simp [hsends]
            · exact Or.inl ⟨rfl, hsends, fun _ => rfl⟩
          · exact Or.inr (Or.inl ⟨rfl, hsends, rfl, by simp [hsends]⟩)
      | some p =>
          refine Or.inr (Or.inr ⟨_, p, (List.append_assoc _ _ _).symm, Or.inr ⟨rfl, rfl⟩⟩)

theorem touches_callsOfAct (L : Line σ α) (t : Timeouts Timeout) (s : Timed σ) (a : α) :
    ∀ o ∈ callsOfAct L t s a, o.Touches := by
  intro o ho
  simp only [callsOfAct, List.mem_append, starts] at ho
  rcases ho with ho | ho | ho
  · split at ho
    · rw [List.mem_singleton.1 ho]
      trivial
    · cases ho
  · split at ho
    · rw [List.mem_singleton.1 ho]
      exact t.touches_setTimeout _
    · cases ho
  · split at ho
    · obtain ⟨p, -, rfl⟩ := List.mem_map.1 ho
      exact t.touches_setTimeout p
    · cases ho

/-- The calls of the handler of a write end with one of `set_timeout`. -/
theorem callsOfWritten_cases (s : Timed σ) (lock : Bool) (ec : Option ErrorCode) :
    (s.sendQueue.outstanding = [] ∧ callsOfWritten t s lock ec = [] ∧
      s.sendQueue.complete 0 lock ec = s.sendQueue) ∨
    s.sendQueue.outstanding ≠ [] ∧
      ∃ os, callsOfWritten t s lock ec = os ++ [t.setTimeout .idle] ∧ ∀ o ∈ os, o.Touches := by
  unfold callsOfWritten
  by_cases houtstanding : s.sendQueue.outstanding = []
  · refine Or.inl ⟨houtstanding, if_pos houtstanding, ?_⟩
    simp [SendQueue.complete, houtstanding]
  · refine Or.inr ⟨houtstanding, ?_⟩
    rw [if_neg houtstanding]
    split
    · exact ⟨[], rfl, by simp⟩
    · refine ⟨[t.setTimeout .idle], rfl, ?_⟩
      intro o ho
      rw [List.mem_singleton.1 ho]
      exact t.touches_setTimeout _

/-! ### The invariant -/

/-- What the send queue and the timer are like: one write is outstanding at most; nothing is sent, and
the timer is set for the handshake, until that is over; and then the timer is set for what follows. -/
structure Sound (L : Line σ α) (t : Timeouts Timeout) (s : Timed σ) : Prop where
  alone : s.sendQueue.Alone
  unopened : L.opened s.stage = false → s.sendQueue.queue = [] ∧ .idle ∉ s.watch.expired
  timer : ∀ deadline p, s.watch.timer = some (deadline, p) →
    t.seconds p ≠ 0 ∧ (L.opened s.stage = true ↔ p = .idle)

/-- The outstanding operation is watched, if it has a timeout, unless the timer has done what it
does. -/
def Watched (L : Line σ α) (t : Timeouts Timeout) (s : Timed σ) : Prop :=
  ∀ p, L.waits s.stage = some p → t.seconds p ≠ 0 →
    s.shut = true ∨ L.gaveUp s.stage = true ∨ s.watch.Guards (t.limit p)

/-- A timer whose last operation was `set_timeout`. -/
theorem timer_append_setTimeout {os : List (Watch.Op Timeout)} {p q : Timeout} {w : Watch Timeout}
    {deadline : ℕ} (h : (w.ops t.limit (os ++ [t.setTimeout p])).timer = some (deadline, q)) :
    q = p ∧ t.seconds p ≠ 0 := by
  rw [Watch.ops_append] at h
  exact t.timer_setTimeout p _ h

theorem guards_append_setTimeout {os : List (Watch.Op Timeout)} {p : Timeout}
    (hp : t.seconds p ≠ 0) (w : Watch Timeout) :
    (w.ops t.limit (os ++ [t.setTimeout p])).Guards (t.limit p) := by
  rw [Watch.ops_append]
  exact t.guards_setTimeout hp _

theorem sound_start (hL : L.Lawful) (s : σ) : Sound L t (start L t s) where
  alone := SendQueue.alone_init
  unopened _ := by
    refine ⟨rfl, ?_⟩
    have hexpired : ∀ o ∈ starts L t s, o.Touches := by
      intro o ho
      obtain ⟨p, -, rfl⟩ := List.mem_map.1 ho
      exact t.touches_setTimeout p
    simp [start, Watch.expired_ops hexpired]
  timer deadline p h := by
    cases hwaits : L.waits s with
    | none => simp [start, starts, hwaits] at h
    | some q =>
        simp only [start, starts, hwaits] at h
        obtain ⟨rfl, hq⟩ := t.timer_setTimeout q _ h
        exact ⟨hq, hL.waits_opened s p hwaits⟩

theorem watched_start (L : Line σ α) (t : Timeouts Timeout) (s : σ) : Watched L t (start L t s) := by
  intro p hwaits hp
  refine Or.inr (Or.inr ?_)
  have hcalls : starts L t s = [t.setTimeout p] := by
    rw [starts, show L.waits s = some p from hwaits]
    rfl
  simp only [start, hcalls]
  exact t.guards_setTimeout hp _

/-- Nothing is sent before the handshake is over. -/
theorem frames_of_unopened (hL : L.Lawful) {s : Timed σ} {a : α} (h : L.opened s.stage = false) :
    frames L s a = [] := hL.opened_of_sends s.stage a h

theorem Sound.perform (hL : L.Lawful) {s : Timed σ} (h : Sound L t s) (a : α) :
    Sound L t (perform L t s a) where
  alone := h.alone.sends _
  unopened hopened := by
    have hbefore : L.opened s.stage = false := by
      by_contra hne
      have hafter := hL.opened_act s.stage a (Bool.not_eq_false _ ▸ hne)
      rw [Timed.perform] at hopened
      exact Bool.false_ne_true (hopened.symm.trans hafter)
    obtain ⟨hqueue, hexpired⟩ := h.unopened hbefore
    refine ⟨?_, ?_⟩
    · simp only [Timed.perform, frames_of_unopened hL hbefore, List.map_nil, List.foldl_nil, hqueue]
    · simp only [Timed.perform]
      rwa [Watch.expired_ops (touches_callsOfAct L t s a)]
  timer deadline p htimer := by
    simp only [Timed.perform] at htimer ⊢
    rcases callsOfAct_cases L t s a with ⟨hhandles, -, hcalls⟩ | ⟨-, -, -, hcalls⟩ |
      ⟨os, q, hcalls, hq⟩
    · -- the timer is left alone, and the handshake was over or is not
      rw [hcalls] at htimer
      obtain ⟨hp, hopened⟩ := h.timer deadline p htimer
      refine ⟨hp, ?_⟩
      rw [← hopened]
      refine ⟨?_, hL.opened_act _ _⟩
      intro hafter
      by_contra hbefore
      have hopens := hL.handles_of_opens s.stage a (by simpa using hbefore) hafter
      exact Bool.false_ne_true (hhandles.symm.trans hopens)
    · rw [hcalls] at htimer
      cases htimer
    · rw [hcalls] at htimer
      obtain ⟨rfl, hp⟩ := timer_append_setTimeout htimer
      refine ⟨hp, ?_⟩
      rcases hq with ⟨rfl, ⟨-, hframes⟩, -⟩ | ⟨-, hwaits⟩
      · refine iff_of_true (hL.opened_act _ _ ?_) rfl
        by_contra hbefore
        exact hframes (frames_of_unopened hL (by simpa using hbefore))
      · exact hL.waits_opened _ _ hwaits

theorem Sound.written {s : Timed σ} (h : Sound L t s) (lock : Bool)
    (ec : Option ErrorCode) : Sound L t (act L t s (.written lock ec)) := by
  rcases callsOfWritten_cases (t := t) s lock ec with ⟨-, hcalls, hcomplete⟩ |
    ⟨houtstanding, os, hcalls, hos⟩
  · simp only [act, hcalls, hcomplete]
    exact ⟨h.alone, h.unopened, h.timer⟩
  · have hopened : L.opened s.stage = true := by
      by_contra hne
      exact houtstanding (h.alone.queued (h.unopened (by simpa using hne)).1)
    refine ⟨h.alone.complete lock ec, ?_, ?_⟩
    · intro hunopened
      exact absurd (hopened.symm.trans hunopened) (by simp)
    · intro deadline p htimer
      simp only [act, hcalls] at htimer
      obtain ⟨rfl, hp⟩ := timer_append_setTimeout htimer
      exact ⟨hp, iff_of_true hopened rfl⟩

/-- The timer is left alone. -/
theorem Sound.of_op {s : Timed σ} (h : Sound L t s) {o : Watch.Op Timeout} (ho : ¬ o.Touches)
    (shut : Bool) : Sound L t { s with watch := s.watch.op t.limit o, shut := shut } where
  alone := h.alone
  unopened hopened := by
    obtain ⟨hqueue, hexpired⟩ := h.unopened hopened
    refine ⟨hqueue, ?_⟩
    intro hmem
    have hops : .idle ∈ (s.watch.ops t.limit [o]).expired := hmem
    rcases Watch.mem_expired_ops (by simpa using ho) hops with hmem | ⟨deadline, htimer, -⟩
    · exact hexpired hmem
    · have hidle := (h.timer deadline .idle htimer).2.2 rfl
      exact Bool.false_ne_true (hopened.symm.trans hidle)
  timer deadline p htimer := h.timer deadline p ((Watch.op_of_not_touches t.limit ho s.watch).2 _ htimer)

theorem Sound.onExpired (hL : L.Lawful) {s : Timed σ} (h : Sound L t s) :
    Sound L t (onExpired L t s) := by
  have hhandle : Sound L t { s with watch := s.watch.op t.limit .handle } :=
    h.of_op (o := .handle) (fun h => h) s.shut
  unfold Timed.onExpired
  split
  · exact h
  · split
    · exact hhandle.perform hL _
    · exact h.of_op (o := .handle) (fun h => h) true

theorem Sound.act (hL : L.Lawful) {s : Timed σ} (h : Sound L t s) (a : Act α) :
    Sound L t (act L t s a) := by
  cases a with
  | act a => exact h.perform hL a
  | written lock ec => exact h.written lock ec
  | tick => exact h.of_op (o := .tick) (fun h => h) s.shut
  | runOut => exact h.of_op (o := .runOut) (fun h => h) s.shut
  | expired => exact h.onExpired hL

/-- What a timer set with `timeout_idle` does, if not to close the socket. -/
theorem onExpired_cases (L : Line σ α) (t : Timeouts Timeout) (s : Timed σ) :
    (s.watch.expired = [] ∧ onExpired L t s = s) ∨
    (s.watch.expired ≠ [] ∧
      onExpired L t s = { s with watch := s.watch.op t.limit .handle, shut := true }) ∨
    ∃ a, L.onIdle = some a ∧ .idle ∈ s.watch.expired ∧
      onExpired L t s = perform L t { s with watch := s.watch.op t.limit .handle } a := by
  unfold onExpired
  cases hexpired : s.watch.expired with
  | nil => exact Or.inl ⟨rfl, rfl⟩
  | cons p expired =>
      cases p with
      | request => exact Or.inr (Or.inl ⟨by simp, rfl⟩)
      | idle =>
          cases L.onIdle with
          | none => exact Or.inr (Or.inl ⟨by simp, rfl⟩)
          | some a => exact Or.inr (Or.inr ⟨a, rfl, by simp, rfl⟩)

/-- The handshake is over when a timer set with `timeout_idle` has run out. -/
theorem Sound.opened_of_idle {s : Timed σ} (h : Sound L t s) (hmem : .idle ∈ s.watch.expired) :
    L.opened s.stage = true := by
  by_contra hne
  exact (h.unopened (by simpa using hne)).2 hmem

theorem Sound.opened_of_outstanding {s : Timed σ} (h : Sound L t s)
    (hout : s.sendQueue.outstanding ≠ []) : L.opened s.stage = true := by
  by_contra hne
  exact hout (h.alone.queued (h.unopened (by simpa using hne)).1)

/-! ### What is outstanding is watched -/

theorem Watched.perform (hL : L.Lawful) {s : Timed σ} (h : Watched L t s) (a : α) :
    Watched L t (perform L t s a) := by
  intro p hwaits hp
  simp only [Timed.perform] at hwaits ⊢
  rcases callsOfAct_cases L t s a with ⟨hhandles, -, hcalls⟩ | ⟨-, -, hnone, -⟩ |
    ⟨os, q, hcalls, hq⟩
  · -- the operation was outstanding before
    rw [hL.waits_act _ _ hhandles] at hwaits
    rw [hcalls]
    rcases h p hwaits hp with hshut | hgaveUp | hguards
    · exact Or.inl (by simp [hshut])
    · exact Or.inr (Or.inl (hL.gaveUp_act _ _ hgaveUp))
    · exact Or.inr (Or.inr hguards)
  · cases hnone.symm.trans hwaits
  · have hqp : q = p := by
      rcases hq with ⟨rfl, ⟨-, hframes⟩, hnone⟩ | ⟨-, hq⟩
      · cases hhandles : L.handles s.stage a with
        | true => cases (hnone hhandles).symm.trans hwaits
        | false =>
            rw [hL.waits_act _ _ hhandles] at hwaits
            refine ((hL.waits_opened _ _ hwaits).1 ?_).symm
            by_contra hne
            exact hframes (frames_of_unopened hL (by simpa using hne))
      · exact Option.some.inj (hq.symm.trans hwaits)
    rw [hcalls, hqp]
    exact Or.inr (Or.inr (guards_append_setTimeout hp _))

theorem Watched.of_op {s : Timed σ} (h : Watched L t s) {o : Watch.Op Timeout} (ho : ¬ o.Touches)
    (hhandle : o ≠ .handle) : Watched L t { s with watch := s.watch.op t.limit o } := by
  intro p hwaits hp
  rcases h p hwaits hp with hshut | hgaveUp | hguards
  · exact Or.inl hshut
  · exact Or.inr (Or.inl hgaveUp)
  · exact Or.inr (Or.inr (hguards.op t.limit ho hhandle))

/-- **What one step preserves.** -/
theorem inv_act (hL : L.Lawful) {s : Timed σ} (h : Sound L t s ∧ Watched L t s) (a : Act α) :
    Sound L t (act L t s a) ∧ Watched L t (act L t s a) := by
  obtain ⟨hsound, hwatched⟩ := h
  refine ⟨hsound.act hL a, ?_⟩
  cases a with
  | act a => exact hwatched.perform hL a
  | written lock ec =>
      intro p hwaits hp
      rcases callsOfWritten_cases (t := t) s lock ec with ⟨-, hcalls, -⟩ |
        ⟨houtstanding, os, hcalls, -⟩
      · have hcall := hwatched p hwaits hp
        simpa only [act, hcalls, Watch.ops_nil] using hcall
      · have hopened := hsound.opened_of_outstanding houtstanding
        obtain rfl := (hL.waits_opened _ _ hwaits).1 hopened
        simp only [act, hcalls]
        exact Or.inr (Or.inr (guards_append_setTimeout hp _))
  | tick => exact hwatched.of_op (o := .tick) (fun h => h) (by simp)
  | runOut => exact hwatched.of_op (o := .runOut) (fun h => h) (by simp)
  | expired =>
      simp only [act]
      rcases onExpired_cases L t s with ⟨-, h⟩ | ⟨-, h⟩ | ⟨a, ha, hmem, h⟩
      · rwa [h]
      · rw [h]
        exact fun p _ _ => Or.inl rfl
      · rw [h]
        intro p _ _
        exact Or.inr (Or.inl (hL.gaveUp_onIdle a ha _ (hsound.opened_of_idle hmem)))

theorem inv_run (hL : L.Lawful) (s : σ) (acts : List (Act α)) :
    Sound L t (run L t s acts) ∧ Watched L t (run L t s acts) := by
  induction acts using List.reverseRecOn with
  | nil => exact ⟨sound_start hL s, watched_start L t s⟩
  | append_singleton acts a ih =>
      rw [run, List.foldl_append]
      exact inv_act hL ih a

/-! ### The first moment -/

theorem timely_start (L : Line σ α) (t : Timeouts Timeout) (s : σ) :
    (start L t s).watch.Timely t.limit := Watch.timely_init.ops _

/-- Starting the first operation takes no time, and nothing has run out. -/
theorem watch_start (L : Line σ α) (t : Timeouts Timeout) (s : σ) :
    (start L t s).watch.touched = (start L t s).watch.now ∧ (start L t s).watch.expired = [] := by
  have hstarts : ∀ o ∈ starts L t s, o.Touches := by
    intro o ho
    obtain ⟨p, -, rfl⟩ := List.mem_map.1 ho
    exact t.touches_setTimeout p
  have hprompt : ∀ o ∈ starts L t s, o ≠ .tick ∧ o ≠ .runOut := by
    intro o ho
    have htouches := hstarts o ho
    constructor <;> rintro rfl <;> exact htouches
  obtain ⟨hnow, -, htouched⟩ := Watch.ops_of_prompt t.limit hprompt {}
  refine ⟨?_, Watch.expired_ops hstarts _⟩
  rw [start, hnow]
  exact htouched (Or.inl rfl)

/-- **Not later.**  When nothing has happened, the time since is less than the timeout of the
outstanding operation, unless the handler of the timer can be run, or has been. -/
theorem silent_lt (hL : L.Lawful) (s : σ) {pre later : List (Act α)}
    (hlater : Machine.Along (act L t) (Silent L t) (run L t s pre) later) {p : Timeout}
    (hwaits : L.waits (run L t s (pre ++ later)).stage = some p) (hp : t.seconds p ≠ 0) :
    (run L t s (pre ++ later)).shut = true ∨ L.gaveUp (run L t s (pre ++ later)).stage = true ∨
      (run L t s (pre ++ later)).watch.Due ∨
      (run L t s (pre ++ later)).watch.now < (run L t s pre).watch.now + t.limit p := by
  rcases (inv_run hL s (pre ++ later)).2 p hwaits hp with hshut | hgaveUp | hguards
  · exact Or.inl hshut
  · exact Or.inr (Or.inl hgaveUp)
  by_cases hdue : (run L t s (pre ++ later)).watch.Due
  · exact Or.inr (Or.inr (Or.inl hdue))
  · refine Or.inr (Or.inr (Or.inr ?_))
    rw [run, List.foldl_append] at hguards hdue ⊢
    have htimely := (works L t).timely (timely_start L t s) pre
    exact (works L t).elapsed_lt htimely hlater hguards hdue

/-! ### What is closed had been waited for -/

/-- For the whole of a timeout nothing has happened: `timeout_idle` if the handshake was over, and
otherwise `timeout_request`. -/
def HasWaited (L : Line σ α) (t : Timeouts Timeout) (s : σ) (acts : List (Act α)) : Prop :=
  ∃ pre later post p, acts = pre ++ later ++ post ∧
    Machine.Along (act L t) (Silent L t) (run L t s pre) later ∧
    (L.opened (run L t s pre).stage = true ↔ p = .idle) ∧ t.seconds p ≠ 0 ∧
    (run L t s pre).watch.now + t.limit p ≤ (run L t s (pre ++ later)).watch.now

theorem HasWaited.append {s : σ} {acts : List (Act α)} (h : HasWaited L t s acts)
    (more : List (Act α)) : HasWaited L t s (acts ++ more) := by
  obtain ⟨pre, later, post, p, rfl, h⟩ := h
  exact ⟨pre, later, post ++ more, p, by simp, h⟩

theorem hasWaited_of_due (hL : L.Lawful) (s : σ) (acts : List (Act α))
    (hdue : (run L t s acts).watch.Due) : HasWaited L t s acts := by
  obtain ⟨htouched, hexpired⟩ := watch_start L t s
  obtain ⟨p, pre, later, post, rfl, hlater, htimer, hle⟩ :=
    (works L t).waited_of_due (timely_start L t s) htouched hexpired acts hdue
  obtain ⟨hp, hopened⟩ := (inv_run hL s pre).1.timer _ p htimer
  exact ⟨pre, later, post, p, rfl, hlater, hopened, hp, hle⟩

/-- **Not sooner.**  A connection whose socket has been shut down, or is about to be by its timer, was
closed by an action of the program, or nothing had happened for the whole of a timeout. -/
theorem waited_of_shut (hL : L.Lawful) (s : σ) (acts : List (Act α))
    (h : (run L t s acts).shut = true ∨ (run L t s acts).watch.Due) :
    (∃ pre a post, acts = pre ++ .act a :: post ∧ L.closes (run L t s pre).stage a = true) ∨
      HasWaited L t s acts := by
  rcases h with hshut | hdue
  swap
  · exact Or.inr (hasWaited_of_due hL s acts hdue)
  induction acts using List.reverseRecOn with
  | nil => cases hshut
  | append_singleton acts a ih =>
      have hcarry : (run L t s acts).shut = true →
          (∃ pre b post, acts ++ [a] = pre ++ .act b :: post ∧
            L.closes (run L t s pre).stage b = true) ∨ HasWaited L t s (acts ++ [a]) := by
        intro hbefore
        rcases ih hbefore with ⟨pre, b, post, hacts, hcloses⟩ | hwaited
        · exact Or.inl ⟨pre, b, post ++ [a], by simp [hacts], hcloses⟩
        · exact Or.inr (hwaited.append [a])
      rw [run, List.foldl_append, List.foldl_cons, List.foldl_nil] at hshut
      cases a with
      | act a =>
          rcases Bool.or_eq_true_iff.1 hshut with hbefore | hcloses
          · exact hcarry hbefore
          · exact Or.inl ⟨acts, a, [], rfl, hcloses⟩
      | written lock ec => exact hcarry hshut
      | tick => exact hcarry hshut
      | runOut => exact hcarry hshut
      | expired =>
          change (onExpired L t (run L t s acts)).shut = true at hshut
          rcases onExpired_cases L t (run L t s acts) with ⟨-, h⟩ | ⟨hne, -⟩ | ⟨b, hb, -, h⟩
          · rw [h] at hshut
            exact hcarry hshut
          · exact Or.inr ((hasWaited_of_due hL s acts (Or.inl hne)).append [.expired])
          · rw [h] at hshut
            rcases Bool.or_eq_true_iff.1 hshut with hbefore | hcloses
            · exact hcarry hbefore
            · exact absurd ((hL.closes_onIdle b hb _).symm.trans hcloses) (by simp)

/-! ### Writes that are not watched -/

theorem Orphan.append {s : σ} {acts : List (Act α)} (h : Orphan L t s acts) {b : Act α}
    (hb : ∀ lock ec, b ≠ .written lock ec) : Orphan L t s (acts ++ [b]) := by
  obtain ⟨pre, a, post, rfl, hwaits, hnone, houtstanding, hpost⟩ := h
  refine ⟨pre, a, post ++ [b], by simp, hwaits, hnone, houtstanding, ?_⟩
  intro lock ec hmem
  rcases List.mem_append.1 hmem with hmem | hmem
  · exact hpost lock ec hmem
  · exact hb lock ec (List.mem_singleton.1 hmem).symm

/-- What is on the send queue keeps later frames waiting. -/
theorem outstanding_perform (s : Timed σ) (a : α)
    (h : ¬ (s.sendQueue.queue = [] ∧ frames L s a ≠ [])) :
    (perform L t s a).sendQueue.outstanding = s.sendQueue.outstanding := by
  by_cases hframes : frames L s a = []
  · simp only [perform, hframes, List.map_nil, List.foldl_nil]
  · exact SendQueue.outstanding_sends (fun hqueue => h ⟨hqueue, hframes⟩) _

/-- A write that is outstanding: the timer has done what it does, or watches, or the read loop was
ended during that write. -/
theorem outstanding_run (hL : L.Lawful) (hidle : t.seconds .idle ≠ 0) (s : σ) (acts : List (Act α))
    (hout : (run L t s acts).sendQueue.outstanding ≠ []) :
    (run L t s acts).shut = true ∨ L.gaveUp (run L t s acts).stage = true ∨
      (run L t s acts).watch.Guards (t.limit .idle) ∨ Orphan L t s acts := by
  induction acts using List.reverseRecOn with
  | nil => exact absurd rfl hout
  | append_singleton acts a ih =>
      have hsound := (inv_run (t := t) hL s acts).1
      have hrun : run L t s (acts ++ [a]) = act L t (run L t s acts) a := by
        rw [run, List.foldl_append]
        rfl
      have hclock : ∀ o : Watch.Op Timeout, ¬ o.Touches → o ≠ .handle →
          (run L t s acts).sendQueue.outstanding ≠ [] → ∀ b : Act α,
          (∀ lock ec, b ≠ .written lock ec) → (run L t s acts).shut = true ∨
            L.gaveUp (run L t s acts).stage = true ∨
            ((run L t s acts).watch.op t.limit o).Guards (t.limit .idle) ∨
            Orphan L t s (acts ++ [b]) := by
        intro o ho hhandle hout b hb
        rcases ih hout with hshut | hgaveUp | hguards | horphan
        · exact Or.inl hshut
        · exact Or.inr (Or.inl hgaveUp)
        · exact Or.inr (Or.inr (Or.inl (hguards.op t.limit ho hhandle)))
        · exact Or.inr (Or.inr (Or.inr (horphan.append hb)))
      rw [hrun] at hout ⊢
      cases a with
      | act a =>
          simp only [act] at hout ⊢
          rcases callsOfAct_cases L t (run L t s acts) a with ⟨-, hbegins, hcalls⟩ |
            ⟨hhandles, hbegins, hnone, -⟩ | ⟨os, q, hcalls, hq⟩
          · rw [outstanding_perform _ _ hbegins] at hout
            simp only [perform, hcalls, Watch.ops_nil]
            rcases ih hout with hshut | hgaveUp | hguards | horphan
            · exact Or.inl (by simp [hshut])
            · exact Or.inr (Or.inl (hL.gaveUp_act _ _ hgaveUp))
            · exact Or.inr (Or.inr (Or.inl hguards))
            · exact Or.inr (Or.inr (Or.inr (horphan.append (by simp))))
          · -- the handler ends the read loop
            rw [outstanding_perform _ _ hbegins] at hout
            refine Or.inr (Or.inr (Or.inr ⟨acts, a, [], rfl, ?_, hnone, hout, by simp⟩))
            exact hL.waits_of_handles _ _ hhandles
          · have hqidle : q = .idle := by
              rcases hq with ⟨hq, -, -⟩ | ⟨-, hwaits⟩
              · exact hq
              · refine (hL.waits_opened _ _ hwaits).1 ?_
                exact (hsound.perform hL a).opened_of_outstanding hout
            simp only [perform, hcalls, hqidle]
            exact Or.inr (Or.inr (Or.inl (guards_append_setTimeout hidle _)))
      | written lock ec =>
          rcases callsOfWritten_cases (t := t) (run L t s acts) lock ec with
            ⟨hnone, -, hcomplete⟩ | ⟨-, os, hcalls, -⟩
          · simp only [act, hcomplete] at hout
            exact absurd hnone hout
          · simp only [act, hcalls]
            exact Or.inr (Or.inr (Or.inl (guards_append_setTimeout hidle _)))
      | tick => exact hclock .tick (fun h => h) (by simp) hout .tick (by simp)
      | runOut => exact hclock .runOut (fun h => h) (by simp) hout .runOut (by simp)
      | expired =>
          simp only [act] at hout ⊢
          rcases onExpired_cases L t (run L t s acts) with ⟨-, h⟩ | ⟨-, h⟩ | ⟨a, ha, hmem, h⟩
          · rw [h] at hout ⊢
            rcases ih hout with hshut | hgaveUp | hguards | horphan
            · exact Or.inl hshut
            · exact Or.inr (Or.inl hgaveUp)
            · exact Or.inr (Or.inr (Or.inl hguards))
            · exact Or.inr (Or.inr (Or.inr (horphan.append (by simp))))
          · rw [h]
            exact Or.inl rfl
          · rw [h]
            exact Or.inr (Or.inl (hL.gaveUp_onIdle a ha _ (hsound.opened_of_idle hmem)))

/-- A write that was outstanding when the read loop ended. -/
def Abandoned (L : Line σ α) (s : Timed σ) : Prop :=
  L.waits s.stage = none ∧ s.sendQueue.outstanding ≠ [] ∧ s.watch.timer = none

/-- Nothing but its end sets the timer again. -/
theorem Abandoned.act (hL : L.Lawful) {s : Timed σ} (hsound : Sound L t s) (h : Abandoned L s)
    {b : Act α} (hb : ∀ lock ec, b ≠ .written lock ec) : Abandoned L (act L t s b) := by
  obtain ⟨hwaits, hout, htimer⟩ := h
  have hperform : ∀ (w : Watch Timeout) (a : α), w.timer = none →
      Abandoned L (perform L t { s with watch := w } a) := by
    intro w a hw
    have hhandles : L.handles s.stage a = false := by
      by_contra hne
      exact hL.waits_of_handles s.stage a (by simpa using hne) hwaits
    have hbegins : ¬ (s.sendQueue.queue = [] ∧ frames L { s with watch := w } a ≠ []) :=
      fun h => hout (hsound.alone.queued h.1)
    refine ⟨(hL.waits_act _ _ hhandles).trans hwaits, ?_, ?_⟩
    · rwa [outstanding_perform { s with watch := w } a hbegins]
    · have hcalls : callsOfAct L t { s with watch := w } a = [] := by
        simp only [callsOfAct, hhandles, if_neg hbegins]
        rfl
      simp only [perform, hcalls, Watch.ops_nil, hw]
  have hop : ∀ o : Watch.Op Timeout, ¬ o.Touches → (s.watch.op t.limit o).timer = none := by
    intro o ho
    cases hafter : (s.watch.op t.limit o).timer with
    | none => rfl
    | some p => cases htimer.symm.trans ((Watch.op_of_not_touches t.limit ho s.watch).2 p hafter)
  cases b with
  | act a => exact hperform s.watch a htimer
  | written lock ec => exact absurd rfl (hb lock ec)
  | tick => exact ⟨hwaits, hout, hop .tick (fun h => h)⟩
  | runOut => exact ⟨hwaits, hout, hop .runOut (fun h => h)⟩
  | expired =>
      simp only [Timed.act]
      rcases onExpired_cases L t s with ⟨-, h⟩ | ⟨-, h⟩ | ⟨a, -, -, h⟩
      · rw [h]
        exact ⟨hwaits, hout, htimer⟩
      · rw [h]
        exact ⟨hwaits, hout, hop .handle (fun h => h)⟩
      · rw [h]
        exact hperform _ a (hop .handle (fun h => h))

/-- A handler that ends the read loop during a write leaves that write alone. -/
theorem abandoned_of_ends (hL : L.Lawful) {s : Timed σ} (hsound : Sound L t s) {a : α}
    (hwaits : L.waits s.stage ≠ none) (hnone : L.waits (L.act s.stage a) = none)
    (hout : s.sendQueue.outstanding ≠ []) : Abandoned L (act L t s (.act a)) := by
  have hbegins : ¬ (s.sendQueue.queue = [] ∧ frames L s a ≠ []) :=
    fun h => hout (hsound.alone.queued h.1)
  refine ⟨hnone, ?_, ?_⟩
  · rwa [act, outstanding_perform s a hbegins]
  · rcases callsOfAct_cases L t s a with ⟨hhandles, -, -⟩ | ⟨-, -, -, hcalls⟩ | ⟨os, q, -, hq⟩
    · exact absurd ((hL.waits_act _ _ hhandles).symm.trans hnone) hwaits
    · simp only [act, perform, hcalls]
      rfl
    · rcases hq with ⟨-, h, -⟩ | ⟨-, h⟩
      · exact absurd h hbegins
      · cases hnone.symm.trans h

theorem Orphan.abandoned (hL : L.Lawful) {s : σ} {acts : List (Act α)} (h : Orphan L t s acts) :
    Abandoned L (run L t s acts) := by
  obtain ⟨pre, a, post, rfl, hwaits, hnone, hout, hpost⟩ := h
  induction post using List.reverseRecOn with
  | nil =>
      rw [run, List.foldl_append]
      exact abandoned_of_ends hL (inv_run hL s pre).1 hwaits hnone hout
  | append_singleton post b ih =>
      have hprev := ih fun lock ec hmem => hpost lock ec (List.mem_append_left _ hmem)
      have hnext := hprev.act (b := b) hL (inv_run hL s (pre ++ .act a :: post)).1
        fun lock ec hb => hpost lock ec (List.mem_append_right _ (by simp [hb]))
      rwa [← List.cons_append, ← List.append_assoc, run, List.foldl_append]

/-- **Which writes are not watched**: as long as the timer has not done what it does, and is not about
to, there is none exactly if the read loop was ended during the write. -/
theorem unwatched_iff (hL : L.Lawful) (hidle : t.seconds .idle ≠ 0) (s : σ) (acts : List (Act α))
    (hout : (run L t s acts).sendQueue.outstanding ≠ []) (hshut : (run L t s acts).shut = false)
    (hgaveUp : L.gaveUp (run L t s acts).stage = false)
    (hdue : ¬ (run L t s acts).watch.Due) :
    (run L t s acts).watch.timer = none ↔ Orphan L t s acts := by
  constructor
  · intro htimer
    rcases outstanding_run hL hidle s acts hout with h | h | h | h
    · exact absurd (hshut.symm.trans h) (by simp)
    · exact absurd (hgaveUp.symm.trans h) (by simp)
    · rcases h with h | ⟨a, h⟩
      · exact absurd h hdue
      · cases htimer.symm.trans h
    · exact h
  · intro h
    exact (h.abandoned hL).2.2

end Timed

end SimpleWeb
