/-
**A queue of writes, of which one at a time is outstanding.**

Entries are put at the end of a queue; the first entry is the one that is being written.  A write is
started by `send` when the entry is the only one, and by the handler of a completed write when there
are entries left.  The handler of a successful write takes the first entry off the queue; that of a
failed write empties the queue.  The callbacks of the entries that have left the queue are called
afterwards, when the lock on the queue has been given up, so that other sends and completions, also
those made by the callbacks themselves, may come before and between them.

The fields from `enqueued` on record what has happened; nothing depends on them.

Main definitions:

* `SendQueue.send`, `SendQueue.sendFromQueue`, `SendQueue.complete`, `SendQueue.handle` — the
  operations;
* `SendQueue.act`, `SendQueue.Allowed` — any interleaving of them;
* `SendQueue.Sound` — the invariant;
* `SendQueue.Serves` — what it means for the callers of a system that has such a queue;
* `SendQueue.Alone` — what is left of it when handlers may be stopped.

Main results:

* `SendQueue.Sound.act` — what one operation preserves;
* `SendQueue.complete_success`, `SendQueue.complete_error` — what the end of a write does to the queue
  and to the callbacks;
* `SendQueue.Sound.serves` — **one write is outstanding when there is one to be made, entries leave in
  order, and their callbacks are called once**.
-/

import SimpleWeb.Machine

set_option relaxedAutoImplicit false
set_option autoImplicit false

/-! ### Entries -/

/-- What is to be written, and the callback to be called afterwards, if there is one. -/
structure SendQueue.Entry (α κ : Type*) where
  data : α
  callback : Option κ

/-- The entry with its data seen through a function. -/
def SendQueue.Entry.map {α β κ : Type*} (f : α → β) (e : SendQueue.Entry α κ) :
    SendQueue.Entry β κ := ⟨f e.data, e.callback⟩

/-- How an entry has left the queue: it has been written; its write has failed; or it was behind one
whose write has failed. -/
inductive SendQueue.Outcome (ε : Type*)
  | written
  | failed (ec : ε)
  | dropped (ec : ε)

/-- The argument of the callback. -/
def SendQueue.Outcome.ec {ε : Type*} : SendQueue.Outcome ε → Option ε
  | .written => none
  | .failed ec => some ec
  | .dropped ec => some ec

def SendQueue.Outcome.isWritten {ε : Type*} : SendQueue.Outcome ε → Bool
  | .written => true
  | .failed _ => false
  | .dropped _ => false

/-- A write of the entry has been started. -/
def SendQueue.Outcome.isStarted {ε : Type*} : SendQueue.Outcome ε → Bool
  | .written => true
  | .failed _ => true
  | .dropped _ => false

/-- The queue, the writes that are outstanding, and the handlers that have given up the lock: each
with the callbacks it is still going to call, and their argument. -/
structure SendQueue (α κ ε : Type*) where
  queue : List (SendQueue.Entry α κ) := []
  outstanding : List α := []
  handlers : List (Option ε × List κ) := []
  enqueued : List (SendQueue.Entry α κ) := []
  started : List α := []
  written : List α := []
  left : List (SendQueue.Entry α κ × SendQueue.Outcome ε) := []
  called : List (κ × Option ε) := []

namespace SendQueue

variable {α κ ε : Type*}

/-! ### Operations -/

/-- A write of the first entry is started. -/
def sendFromQueue (q : SendQueue α κ ε) : SendQueue α κ ε :=
  match q.queue with
  | [] => q
  | e :: _ =>
      { q with outstanding := q.outstanding ++ [e.data], started := q.started ++ [e.data] }

/-- An entry is put on the queue. -/
def send (q : SendQueue α κ ε) (e : Entry α κ) : SendQueue α κ ε :=
  let q := { q with queue := q.queue ++ [e], enqueued := q.enqueued ++ [e] }
  if q.queue.length = 1 then q.sendFromQueue else q

/-- The handler of a write that has succeeded, as long as it holds the lock. -/
def onWritten (q : SendQueue α κ ε) : SendQueue α κ ε :=
  match q.queue with
  | [] => q
  | e :: queue =>
      let q := { q with
        queue := queue
        left := q.left ++ [(e, .written)]
        handlers := q.handlers ++ [(none, e.callback.toList)] }
      if q.queue.length > 0 then q.sendFromQueue else q

/-- How the entries leave a queue that is emptied. -/
def emptied (ec : ε) : List (Entry α κ) → List (Entry α κ × Outcome ε)
  | [] => []
  | e :: queue => (e, .failed ec) :: queue.map fun e => (e, .dropped ec)

/-- The handler of a write that has failed, as long as it holds the lock. -/
def onFailed (q : SendQueue α κ ε) (ec : ε) : SendQueue α κ ε :=
  { q with
    queue := []
    left := q.left ++ emptied ec q.queue
    handlers := q.handlers ++ [(some ec, q.queue.filterMap Entry.callback)] }

/-- The write number `i` of those outstanding is completed, and its handler runs up to where it
gives up the lock.  `lock` says whether handlers may still run. -/
def complete (q : SendQueue α κ ε) (i : ℕ) (lock : Bool) (ec : Option ε) : SendQueue α κ ε :=
  match q.outstanding[i]? with
  | none => q
  | some data =>
      let q := { q with outstanding := q.outstanding.eraseIdx i }
      match ec with
      | none =>
          let q := { q with written := q.written ++ [data] }
          if lock then q.onWritten else q
      | some ec => if lock then q.onFailed ec else q

/-- The handler number `i` calls its next callback, or is done. -/
def handle (q : SendQueue α κ ε) (i : ℕ) : SendQueue α κ ε :=
  match q.handlers[i]? with
  | none => q
  | some (_, []) => { q with handlers := q.handlers.eraseIdx i }
  | some (ec, k :: callbacks) =>
      { q with handlers := q.handlers.set i (ec, callbacks), called := q.called ++ [(k, ec)] }

/-- What can happen to the queue. -/
inductive Act (α κ ε : Type*)
  | send (e : Entry α κ)
  | complete (i : ℕ) (lock : Bool) (ec : Option ε)
  | handle (i : ℕ)

def act (q : SendQueue α κ ε) : Act α κ ε → SendQueue α κ ε
  | .send e => q.send e
  | .complete i lock ec => q.complete i lock ec
  | .handle i => q.handle i

/-- Outstanding writes complete, and handlers go on, as long as handlers may run. -/
def Allowed (q : SendQueue α κ ε) : Act α κ ε → Prop
  | .send _ => True
  | .complete i lock _ => i < q.outstanding.length ∧ lock = true
  | .handle i => i < q.handlers.length

/-! ### The invariant -/

/-- The callbacks that the handlers are still going to call. -/
def pending (q : SendQueue α κ ε) : List (κ × Option ε) :=
  q.handlers.flatMap fun h => h.2.map (·, h.1)

/-- The callbacks that are called for the entries that have left the queue. -/
def due (left : List (Entry α κ × Outcome ε)) : List (κ × Option ε) :=
  left.flatMap fun l => l.1.callback.toList.map (·, l.2.ec)

/-- The write of the first entry, and no other, is outstanding.  The entries have left the queue in
order.  The writes started are those of the entries that have left, except of those dropped, and
that of the first entry; those that succeeded are those of the entries that have left as written.
And the callbacks called and to be called are, each as often as it should be, those of the entries
that have left. -/
structure Sound (q : SendQueue α κ ε) : Prop where
  outstanding : q.outstanding = (q.queue.head?.map Entry.data).toList
  enqueued : q.enqueued = q.left.map Prod.fst ++ q.queue
  started : q.started = ((q.left.filter fun l => l.2.isStarted).map fun l => l.1.data) ++ q.outstanding
  written : q.written = (q.left.filter fun l => l.2.isWritten).map fun l => l.1.data
  called : (q.called ++ q.pending).Perm (due q.left)

theorem sound_init : Sound ({} : SendQueue α κ ε) :=
  ⟨rfl, rfl, rfl, rfl, List.Perm.refl _⟩

/-- The write of a new first entry is started. -/
theorem Sound.send {q : SendQueue α κ ε} (h : q.Sound) (e : Entry α κ) : (q.send e).Sound := by
  obtain ⟨houtstanding, henqueued, hstarted, hwritten, hcalled⟩ := h
  cases hqueue : q.queue with
  | nil =>
      rw [hqueue] at houtstanding henqueued
      have hsend : q.send e = { q with
          queue := [e]
          enqueued := q.enqueued ++ [e]
          outstanding := q.outstanding ++ [e.data]
          started := q.started ++ [e.data] } := by
        simp [SendQueue.send, sendFromQueue, hqueue]
      rw [hsend]
      refine ⟨?_, ?_, ?_, hwritten, hcalled⟩
      · simp [houtstanding]
      · simp [henqueued]
      · simp [hstarted]
  | cons first queue =>
      have hsend : q.send e = { q with
          queue := q.queue ++ [e]
          enqueued := q.enqueued ++ [e] } := by
        simp [SendQueue.send, hqueue]
      rw [hsend]
      refine ⟨?_, ?_, hstarted, hwritten, hcalled⟩
      · simp [houtstanding, hqueue]
      · simp [henqueued]

/-- The entry whose write has succeeded is the first one, and the next one follows. -/
theorem Sound.onWritten {q : SendQueue α κ ε} {data : α} (h : q.Sound)
    (hdata : q.outstanding = [data]) :
    ({ q with outstanding := [], written := q.written ++ [data] }.onWritten).Sound := by
  obtain ⟨houtstanding, henqueued, hstarted, hwritten, hcalled⟩ := h
  cases hqueue : q.queue with
  | nil => simp [hqueue, hdata] at houtstanding
  | cons e queue =>
      obtain rfl : e.data = data := by simpa [hqueue, hdata] using houtstanding.symm
      have hdue : (q.called ++ (q.pending ++ e.callback.toList.map (·, none))).Perm
          (due (q.left ++ [(e, Outcome.written)])) := by
        rw [← List.append_assoc]
        simpa [due, Outcome.ec] using hcalled.append_right (e.callback.toList.map (·, none))
      cases queue with
      | nil =>
          refine ⟨?_, ?_, ?_, ?_, ?_⟩
          · simp [SendQueue.onWritten]
          · simp [SendQueue.onWritten, hqueue, henqueued]
          · simp [SendQueue.onWritten, hstarted, hdata, Outcome.isStarted]
          · simp [SendQueue.onWritten, hwritten, Outcome.isWritten]
          · simpa [SendQueue.onWritten, hqueue, pending] using hdue
      | cons next queue =>
          refine ⟨?_, ?_, ?_, ?_, ?_⟩
          · simp [SendQueue.onWritten, sendFromQueue]
          · simp [SendQueue.onWritten, hqueue, sendFromQueue, henqueued]
          · simp [SendQueue.onWritten, sendFromQueue, hstarted, hdata, Outcome.isStarted]
          · simp [SendQueue.onWritten, sendFromQueue, hwritten, Outcome.isWritten]
          · simpa [SendQueue.onWritten, hqueue, sendFromQueue, pending] using hdue

/-- All callbacks of a queue that is emptied are due. -/
theorem due_emptied (ec : ε) (queue : List (Entry α κ)) :
    due (emptied ec queue) = (queue.filterMap Entry.callback).map (·, some ec) := by
  have hdropped : ∀ es : List (Entry α κ),
      due (es.map fun e => (e, Outcome.dropped ec)) =
        (es.filterMap Entry.callback).map (·, some ec) := by
    intro es
    induction es with
    | nil => rfl
    | cons e es ih =>
        cases hcallback : e.callback with
        | none => simpa [due, hcallback] using ih
        | some k => simpa [due, hcallback, Outcome.ec] using ih
  cases queue with
  | nil => rfl
  | cons e queue =>
      have hrest := hdropped queue
      cases hcallback : e.callback with
      | none => simpa [emptied, due, hcallback] using hrest
      | some k => simpa [emptied, due, hcallback, Outcome.ec] using hrest

theorem map_fst_emptied (ec : ε) (queue : List (Entry α κ)) :
    (emptied ec queue).map Prod.fst = queue := by
  cases queue with
  | nil => rfl
  | cons e queue => simp [emptied, Function.comp_def]

/-- Of a queue that is emptied only the first entry has been started. -/
theorem started_emptied (ec : ε) (queue : List (Entry α κ)) :
    ((emptied ec queue).filter fun l => l.2.isStarted).map (fun l => l.1.data) =
      (queue.head?.map Entry.data).toList := by
  cases queue with
  | nil => rfl
  | cons e queue => simp [emptied, Outcome.isStarted]

theorem written_emptied (ec : ε) (queue : List (Entry α κ)) :
    ((emptied ec queue).filter fun l => l.2.isWritten) = [] := by
  cases queue with
  | nil => rfl
  | cons e queue => simp [emptied, Outcome.isWritten]

/-- The entry whose write has failed is the first one, and all entries leave. -/
theorem Sound.onFailed {q : SendQueue α κ ε} (h : q.Sound) (ec : ε) :
    ({ q with outstanding := [] }.onFailed ec).Sound := by
  obtain ⟨houtstanding, henqueued, hstarted, hwritten, hcalled⟩ := h
  refine ⟨rfl, ?_, ?_, ?_, ?_⟩
  · simp [SendQueue.onFailed, map_fst_emptied, henqueued]
  · simp [SendQueue.onFailed, started_emptied, hstarted, houtstanding]
  · simp [SendQueue.onFailed, written_emptied, hwritten]
  · have hdue := hcalled.append_right (due (emptied ec q.queue))
    simp only [due_emptied, List.append_assoc] at hdue
    simpa [SendQueue.onFailed, pending, due, ← due_emptied] using hdue

/-- What a completed write preserves. -/
theorem Sound.complete {q : SendQueue α κ ε} (h : q.Sound) {i : ℕ} (hi : i < q.outstanding.length)
    (ec : Option ε) : (q.complete i true ec).Sound := by
  have houtstanding := h.outstanding
  cases hqueue : q.queue.head? with
  | none => simp [houtstanding, hqueue] at hi
  | some e =>
      have hdata : q.outstanding = [e.data] := by simp [houtstanding, hqueue]
      obtain rfl : i = 0 := by simpa [hdata] using hi
      cases ec with
      | none =>
          have hcomplete := h.onWritten hdata
          simpa [SendQueue.complete, hdata] using hcomplete
      | some ec =>
          have hcomplete := h.onFailed ec
          simpa [SendQueue.complete, hdata] using hcomplete

/-- A handler that calls a callback has called it, and no longer has it to call. -/
theorem pending_handle {q : SendQueue α κ ε} (i : ℕ) :
    ((q.handle i).called ++ (q.handle i).pending).Perm (q.called ++ q.pending) := by
  unfold SendQueue.handle
  cases hi : q.handlers[i]? with
  | none => exact List.Perm.refl _
  | some handler =>
      obtain ⟨hlt, hget⟩ := List.getElem?_eq_some_iff.1 hi
      obtain ⟨pre, post, hsplit, hlen⟩ : ∃ pre post,
          q.handlers = pre ++ handler :: post ∧ pre.length = i := by
        refine ⟨q.handlers.take i, q.handlers.drop (i + 1), ?_, by simp; omega⟩
        rw [← hget, List.getElem_cons_drop, List.take_append_drop]
      subst hlen
      obtain ⟨ec, callbacks⟩ := handler
      cases callbacks with
      | nil =>
          have herase : (pre ++ (ec, []) :: post).eraseIdx pre.length = pre ++ post := by
            rw [List.eraseIdx_append_of_length_le (le_refl _)]
            simp
          simp [pending, hsplit, herase]
      | cons k callbacks =>
          have hset : (pre ++ (ec, k :: callbacks) :: post).set pre.length (ec, callbacks) =
              pre ++ (ec, callbacks) :: post := by
            rw [List.set_append_right _ _ (le_refl _)]
            simp
          simp only [pending, hsplit, hset, List.flatMap_append, List.flatMap_cons, List.map_cons,
            List.append_assoc, List.cons_append, List.nil_append]
          exact (List.perm_middle.symm).append_left q.called

/-- What a handler preserves: a callback that is called is no longer pending. -/
theorem Sound.handle {q : SendQueue α κ ε} (h : q.Sound) (i : ℕ) : (q.handle i).Sound := by
  have hcalled := (pending_handle i).trans h.called
  have hrest : (q.handle i).queue = q.queue ∧ (q.handle i).outstanding = q.outstanding ∧
      (q.handle i).enqueued = q.enqueued ∧ (q.handle i).started = q.started ∧
      (q.handle i).written = q.written ∧ (q.handle i).left = q.left := by
    unfold SendQueue.handle
    split <;> exact ⟨rfl, rfl, rfl, rfl, rfl, rfl⟩
  obtain ⟨hqueue, houtstanding, henqueued, hstarted, hwritten, hleft⟩ := hrest
  refine ⟨?_, ?_, ?_, ?_, ?_⟩
  · rw [houtstanding, hqueue, h.outstanding]
  · rw [henqueued, hleft, hqueue, h.enqueued]
  · rw [hstarted, hleft, houtstanding, h.started]
  · rw [hwritten, hleft, h.written]
  · rw [hleft]
    exact hcalled

/-- **What one operation preserves.** -/
theorem Sound.act {q : SendQueue α κ ε} (h : q.Sound) {a : Act α κ ε} (ha : Allowed q a) :
    (act q a).Sound := by
  cases a with
  | send e => exact h.send e
  | complete i lock ec =>
      obtain ⟨hi, rfl⟩ := ha
      exact h.complete hi ec
  | handle i => exact h.handle i

/-! ### What operations leave alone -/

@[simp] theorem enqueued_sendFromQueue (q : SendQueue α κ ε) :
    q.sendFromQueue.enqueued = q.enqueued := by
  unfold sendFromQueue
  split <;> rfl

@[simp] theorem queue_sendFromQueue (q : SendQueue α κ ε) :
    q.sendFromQueue.queue = q.queue := by
  unfold sendFromQueue
  split <;> rfl

@[simp] theorem written_sendFromQueue (q : SendQueue α κ ε) :
    q.sendFromQueue.written = q.written := by
  unfold sendFromQueue
  split <;> rfl

@[simp] theorem enqueued_send (q : SendQueue α κ ε) (e : Entry α κ) :
    (q.send e).enqueued = q.enqueued ++ [e] := by
  simp only [SendQueue.send]
  split <;> simp

@[simp] theorem queue_send (q : SendQueue α κ ε) (e : Entry α κ) :
    (q.send e).queue = q.queue ++ [e] := by
  simp only [SendQueue.send]
  split <;> simp

@[simp] theorem written_send (q : SendQueue α κ ε) (e : Entry α κ) :
    (q.send e).written = q.written := by
  simp only [SendQueue.send]
  split <;> simp

@[simp] theorem enqueued_onWritten (q : SendQueue α κ ε) : q.onWritten.enqueued = q.enqueued := by
  unfold SendQueue.onWritten
  split
  · rfl
  · dsimp only
    split <;> simp

@[simp] theorem written_onWritten (q : SendQueue α κ ε) : q.onWritten.written = q.written := by
  unfold SendQueue.onWritten
  split
  · rfl
  · dsimp only
    split <;> simp

theorem queue_onWritten (q : SendQueue α κ ε) : q.onWritten.queue = q.queue.tail := by
  unfold SendQueue.onWritten
  split
  · next h => simp [h]
  · next h =>
      dsimp only
      split <;> simp [h]

@[simp] theorem enqueued_complete (q : SendQueue α κ ε) (i : ℕ) (lock : Bool) (ec : Option ε) :
    (q.complete i lock ec).enqueued = q.enqueued := by
  unfold SendQueue.complete
  cases q.outstanding[i]? with
  | none => rfl
  | some data => cases ec <;> cases lock <;> simp [onFailed]

/-- A completion puts nothing on the queue. -/
theorem mem_queue_complete {q : SendQueue α κ ε} {i : ℕ} {lock : Bool} {ec : Option ε}
    {e : Entry α κ} (h : e ∈ (q.complete i lock ec).queue) : e ∈ q.queue := by
  unfold SendQueue.complete at h
  cases hdata : q.outstanding[i]? with
  | none => simpa [hdata] using h
  | some data =>
      simp only [hdata] at h
      cases ec with
      | none =>
          cases lock with
          | false => exact h
          | true => exact List.mem_of_mem_tail (by simpa [queue_onWritten] using h)
      | some ec =>
          cases lock with
          | false => exact h
          | true => simp [onFailed] at h

/-- What has been written: the data of the write that has succeeded. -/
theorem written_complete {q : SendQueue α κ ε} {i : ℕ} {lock : Bool} {ec : Option ε} :
    (q.complete i lock ec).written =
      q.written ++ if ec.isNone then q.outstanding[i]?.toList else [] := by
  unfold SendQueue.complete
  cases hdata : q.outstanding[i]? with
  | none => simp
  | some data =>
      cases ec with
      | none => cases lock <;> simp
      | some ec => cases lock <;> simp [onFailed]

theorem handle_eq (q : SendQueue α κ ε) (i : ℕ) :
    ∃ handlers called, q.handle i = { q with handlers := handlers, called := called } := by
  unfold SendQueue.handle
  split
  · exact ⟨_, _, rfl⟩
  · exact ⟨_, q.called, rfl⟩
  · exact ⟨_, _, rfl⟩

@[simp] theorem enqueued_handle (q : SendQueue α κ ε) (i : ℕ) :
    (q.handle i).enqueued = q.enqueued := by
  obtain ⟨handlers, called, heq⟩ := q.handle_eq i
  rw [heq]

/-! ### Consequences -/

/-- **No callback is called more often than it has been passed to `send`.** -/
theorem Sound.called_subperm {q : SendQueue α κ ε} (h : q.Sound) :
    (q.called.map Prod.fst).Subperm (q.enqueued.filterMap Entry.callback) := by
  have hdue : (due q.left).map Prod.fst = (q.left.map Prod.fst).filterMap Entry.callback := by
    induction q.left with
    | nil => rfl
    | cons l left ih =>
        cases hcallback : l.1.callback with
        | none => simpa [due, hcallback] using ih
        | some k => simpa [due, hcallback] using ih
  have hcalled := (h.called.map Prod.fst).subperm
  rw [hdue, List.map_append] at hcalled
  rw [h.enqueued, List.filterMap_append]
  exact ((List.sublist_append_left _ _).subperm.trans hcalled).trans
    (List.sublist_append_left _ _).subperm

/-- **A callback called without an error is that of an entry that has been written.** -/
theorem Sound.called_none_subperm {q : SendQueue α κ ε} (h : q.Sound) :
    ((q.called.filter fun c => c.2.isNone).map Prod.fst).Subperm
      ((q.left.filter fun l => l.2.isWritten).filterMap fun l => l.1.callback) := by
  have hdue : ((due q.left).filter fun c => c.2.isNone).map Prod.fst =
      (q.left.filter fun l => l.2.isWritten).filterMap fun l => l.1.callback := by
    induction q.left with
    | nil => rfl
    | cons l left ih =>
        obtain ⟨e, outcome⟩ := l
        simp only [due, List.flatMap_cons, List.filter_append, List.map_append] at ih ⊢
        rw [ih]
        cases outcome <;> cases hcallback : e.callback <;>
          simp [Outcome.ec, Outcome.isWritten, hcallback]
  have hcalled := ((h.called.filter fun c => c.2.isNone).map Prod.fst).subperm
  rw [hdue, List.filter_append, List.map_append] at hcalled
  exact (List.sublist_append_left _ _).subperm.trans hcalled

/-- A handler that is left to itself calls its callbacks and is done. -/
theorem iterate_handle {q : SendQueue α κ ε} {i : ℕ} {ec : Option ε} {callbacks : List κ}
    (h : q.handlers[i]? = some (ec, callbacks)) :
    (fun q : SendQueue α κ ε => q.handle i)^[callbacks.length + 1] q =
      { q with
        handlers := q.handlers.eraseIdx i
        called := q.called ++ callbacks.map (·, ec) } := by
  induction callbacks generalizing q with
  | nil => simp [handle, h]
  | cons k callbacks ih =>
      obtain ⟨hlt, -⟩ := List.getElem?_eq_some_iff.1 h
      have hstep : q.handle i = { q with
          handlers := q.handlers.set i (ec, callbacks)
          called := q.called ++ [(k, ec)] } := by
        simp [handle, h]
      have hrest := @ih (q.handle i) (by rw [hstep]; simp [hlt])
      rw [List.length_cons, Function.iterate_succ_apply, hrest, hstep]
      simp [List.eraseIdx_set_eq]

/-- **A write that has succeeded takes its entry off the queue**; its handler, left to itself, calls
the callback of the entry without an error. -/
theorem complete_success {q : SendQueue α κ ε} (h : q.Sound) {e : Entry α κ}
    {queue : List (Entry α κ)} (hqueue : q.queue = e :: queue) :
    (q.complete 0 true none).queue = queue ∧
      (q.complete 0 true none).written = q.written ++ [e.data] ∧
      ((fun q' : SendQueue α κ ε => q'.handle q.handlers.length)^[e.callback.toList.length + 1]
        (q.complete 0 true none)).called = q.called ++ e.callback.toList.map (·, none) := by
  have houtstanding : q.outstanding = [e.data] := by simp [h.outstanding, hqueue]
  have hcomplete : (q.complete 0 true none).handlers =
        q.handlers ++ [(none, e.callback.toList)] ∧
      (q.complete 0 true none).called = q.called := by
    cases queue with
    | nil => simp [SendQueue.complete, houtstanding, SendQueue.onWritten, hqueue]
    | cons next queue =>
        simp [SendQueue.complete, houtstanding, SendQueue.onWritten, hqueue, sendFromQueue]
  refine ⟨?_, by simp [written_complete, houtstanding], ?_⟩
  · simp [SendQueue.complete, houtstanding, queue_onWritten, hqueue]
  · have hhandler : (q.complete 0 true none).handlers[q.handlers.length]? =
        some (none, e.callback.toList) := by
      rw [hcomplete.1]
      simp
    rw [iterate_handle hhandler]
    dsimp only
    rw [hcomplete.2]

/-- **A failed write empties the queue**; its handler, left to itself, calls every callback that was
queued with the error. -/
theorem complete_error {q : SendQueue α κ ε} (h : q.Sound) (hqueue : q.queue ≠ []) (ec : ε) :
    (q.complete 0 true (some ec)).queue = [] ∧ (q.complete 0 true (some ec)).outstanding = [] ∧
      ((fun q' : SendQueue α κ ε => q'.handle q.handlers.length)^[
        (q.queue.filterMap Entry.callback).length + 1] (q.complete 0 true (some ec))).called =
          q.called ++ (q.queue.filterMap Entry.callback).map (·, some ec) := by
  obtain ⟨e, queue, hcons⟩ := List.exists_cons_of_ne_nil hqueue
  have houtstanding : q.outstanding = [e.data] := by simp [h.outstanding, hcons]
  have hcomplete : q.complete 0 true (some ec) =
      { q with outstanding := [] }.onFailed ec := by
    simp [SendQueue.complete, houtstanding]
  rw [hcomplete]
  refine ⟨rfl, rfl, ?_⟩
  rw [iterate_handle]
  · rfl
  · simp [SendQueue.onFailed]

/-! ### A system with a queue -/

section system

variable {σ β : Type*}

/-- What the callers of `send` may rely on, in a state of a system that has a queue.  `complete` is the
end of the outstanding write, `handle` a handler that goes on; `bytes` is what an entry stands for, and
`sent` what has been passed to `send`, in order.

The invariant holds: one write is outstanding if there is an entry on the queue, and none otherwise.
The entries are those that have been sent.  The writes are started in that order.  No callback is called
more often than it has been passed, and none without an error unless its entry has been written.  When
the outstanding write succeeds, its entry leaves the queue, and the handler calls its callback; when it
fails, the queue is empty, and the handler calls all callbacks that were queued, each as often as it was
queued, with the error. -/
structure Serves (view : σ → SendQueue α κ ε) (complete : σ → Option ε → σ)
    (handle : σ → ℕ → σ) (bytes : α → β) (sent : List (Entry β κ)) (s : σ) : Prop where
  sound : (view s).Sound
  enqueued : (view s).enqueued.map (Entry.map bytes) = sent
  started : ((view s).started.map bytes).Sublist (sent.map Entry.data)
  once : ((view s).called.map Prod.fst).Subperm (sent.filterMap Entry.callback)
  afterwards : (((view s).called.filter fun c => c.2.isNone).map Prod.fst).Subperm
    (((view s).left.filter fun l => l.2.isWritten).filterMap fun l => l.1.callback)
  succeeds : ∀ e queue, (view s).queue = e :: queue →
    (view (complete s none)).queue = queue ∧
      (view (complete s none)).written = (view s).written ++ [e.data] ∧
      (view ((fun s' => handle s' (view s).handlers.length)^[e.callback.toList.length + 1]
        (complete s none))).called = (view s).called ++ e.callback.toList.map (·, none)
  fails : (view s).queue ≠ [] → ∀ ec,
    (view (complete s (some ec))).queue = [] ∧ (view (complete s (some ec))).outstanding = [] ∧
      (view ((fun s' => handle s' (view s).handlers.length)^[
        ((view s).queue.filterMap Entry.callback).length + 1] (complete s (some ec)))).called =
          (view s).called ++ ((view s).queue.filterMap Entry.callback).map (·, some ec)

/-- The writes started are some of the entries, in their order. -/
theorem Sound.started_sublist {q : SendQueue α κ ε} (h : q.Sound) :
    q.started.Sublist (q.enqueued.map Entry.data) := by
  have hfirst : q.outstanding.Sublist (q.queue.map Entry.data) := by
    rw [h.outstanding]
    cases q.queue with
    | nil => exact List.Sublist.slnil
    | cons e queue => simp
  have hleft : ((q.left.filter fun l => l.2.isStarted).map fun l => l.1.data).Sublist
      ((q.left.map Prod.fst).map Entry.data) := by
    rw [List.map_map]
    exact List.filter_sublist.map _
  rw [h.started, h.enqueued, List.map_append]
  exact hleft.append hfirst

/-- **A system with a sound queue serves its callers.** -/
theorem Sound.serves {view : σ → SendQueue α κ ε} {complete : σ → Option ε → σ}
    {handle : σ → ℕ → σ} {bytes : α → β} {sent : List (Entry β κ)} {s : σ} (h : (view s).Sound)
    (hsent : (view s).enqueued.map (Entry.map bytes) = sent)
    (hcomplete : ∀ ec, view (complete s ec) = (view s).complete 0 true ec)
    (hhandle : ∀ s i, view (handle s i) = (view s).handle i) :
    Serves view complete handle bytes sent s := by
  have hcallback : sent.filterMap Entry.callback =
      (view s).enqueued.filterMap Entry.callback := by
    rw [← hsent, List.filterMap_map]
    rfl
  have hiterate : ∀ i n s', view ((fun s' => handle s' i)^[n] s') =
      (fun q : SendQueue α κ ε => q.handle i)^[n] (view s') := fun i n s' =>
    (Function.Semiconj.iterate_right (fun s'' => hhandle s'' i) n) s'
  refine ⟨h, hsent, ?_, ?_, h.called_none_subperm, ?_, ?_⟩
  · have hdata : sent.map Entry.data = ((view s).enqueued.map Entry.data).map bytes := by
      rw [← hsent, List.map_map, List.map_map]
      rfl
    rw [hdata]
    exact h.started_sublist.map bytes
  · rw [hcallback]
    exact h.called_subperm
  · intro e queue hqueue
    rw [hiterate, hcomplete]
    exact complete_success h hqueue
  · intro hqueue ec
    rw [hiterate, hcomplete]
    exact complete_error h hqueue ec

end system

/-! ### Handlers that may be stopped -/

/-- At most one write is outstanding, and it is that of an entry on the queue.  Unlike the invariant
this holds when handlers may be stopped, which leaves entries on the queue that nothing writes. -/
structure Alone (q : SendQueue α κ ε) : Prop where
  one : q.outstanding.length ≤ 1
  queued : q.queue = [] → q.outstanding = []

theorem alone_init : Alone ({} : SendQueue α κ ε) := ⟨Nat.zero_le 1, fun _ => rfl⟩

/-- A write is started only when there was nothing on the queue. -/
theorem outstanding_send {q : SendQueue α κ ε} (h : q.queue ≠ []) (e : Entry α κ) :
    (q.send e).outstanding = q.outstanding := by
  have hlen : (q.queue ++ [e]).length ≠ 1 := by
    simpa using h
  simp only [send, if_neg hlen]

theorem outstanding_sends {q : SendQueue α κ ε} (h : q.queue ≠ []) (es : List (Entry α κ)) :
    (es.foldl send q).outstanding = q.outstanding := by
  induction es generalizing q with
  | nil => rfl
  | cons e es ih =>
      rw [List.foldl_cons, ih (by simp), outstanding_send h]

theorem Alone.send {q : SendQueue α κ ε} (h : q.Alone) (e : Entry α κ) : (q.send e).Alone := by
  refine ⟨?_, fun hqueue => absurd hqueue (by simp)⟩
  cases hqueue : q.queue with
  | nil => simp [SendQueue.send, sendFromQueue, hqueue, h.queued hqueue]
  | cons first queue =>
      rw [outstanding_send (by simp [hqueue])]
      exact h.one

theorem Alone.sends {q : SendQueue α κ ε} (h : q.Alone) (es : List (Entry α κ)) :
    (es.foldl SendQueue.send q).Alone := by
  induction es generalizing q with
  | nil => exact h
  | cons e es ih => exact ih (h.send e)

theorem Alone.complete {q : SendQueue α κ ε} (h : q.Alone) (lock : Bool) (ec : Option ε) :
    (q.complete 0 lock ec).Alone := by
  obtain ⟨hone, hqueued⟩ := h
  unfold SendQueue.complete
  cases houtstanding : q.outstanding with
  | nil => exact ⟨hone, hqueued⟩
  | cons data more =>
      obtain rfl : more = [] := by simpa [houtstanding] using hone
      cases lock with
      | false => cases ec <;> exact ⟨Nat.zero_le 1, fun _ => rfl⟩
      | true =>
          cases ec with
          | some ec => exact ⟨Nat.zero_le 1, fun _ => rfl⟩
          | none =>
              -- the next entry, if there is one, is written
              cases hqueue : q.queue with
              | nil => exact absurd (hqueued hqueue) (by simp [houtstanding])
              | cons e queue =>
                  cases queue with
                  | nil => exact ⟨by simp [onWritten], by simp [onWritten]⟩
                  | cons next queue =>
                      refine ⟨?_, ?_⟩
                      · simp [onWritten, sendFromQueue]
                      · simp [onWritten]

end SendQueue
