/-
**Calling `on_error` when it is not set.**

The handlers of `ServerBase` call `on_error` after asking whether it is set, with two exceptions: the
handlers of the reads of the line end behind a chunk.  If such a read fails and `on_error` is not set,
as in the servers of this program, `std::bad_function_call` is thrown out of the handler and stops the
`io_service`.

Main definitions:

* `SimpleWeb.ServerBase.ChunkEndFails` — the read of a line end behind a chunk fails.

Main results:

* `SimpleWeb.ServerBase.thrown_act` — the step lemma;
* `SimpleWeb.ServerBase.bad_function_call_iff` — **which runs do not throw it**;
* `SimpleWeb.ServerBase.bad_function_call_thrown` — a client that stops the server.
-/

import SimpleWeb.ServerBase

set_option relaxedAutoImplicit false
set_option autoImplicit false

namespace SimpleWeb.ServerBase

variable {members : Members} {config : Config} {order : Order}

/-! ### One step -/

/-- The read of the line end behind a chunk ends with an error. -/
def ChunkEndFails (s : Session) : Act → Prop
  | .complete lock k => lock = true ∧ k.ec ≠ none ∧ ∃ size, s.reading = some (.chunkEnd size)
  | .responseSent _ _ _ => False

/-- **The step lemma**: what throws is the failure of that read, when `on_error` is not set. -/
theorem thrown_act (s : Session) (a : Act) :
    .thrown .badFunctionCall ∈ (act members config order s a).log ↔
      .thrown .badFunctionCall ∈ s.log ∨ members.onError = false ∧ ChunkEndFails s a := by
  cases a with
  | responseSent closeConnectionAfterResponse lock ec =>
      rw [ChunkEndFails, and_false, or_false]
      exact (throwsNoCall_onResponseSent s _ _ _).mem_iff
  | complete lock k =>
      simp only [act, ChunkEndFails]
      cases hop : s.reading with
      | none =>
          unfold Session.complete
          simp [hop]
      | some op =>
          obtain ⟨t, hlog, heq⟩ := @complete_eq members config order s op hop lock k
          rw [heq, ← hlog]
          cases lock with
          | false => simp
          | true =>
              cases hec : k.ec with
              | none =>
                  have hread := (@throwsNoCall_onRead members config order t op).mem_iff
                  simpa using hread
              | some ec =>
                  cases op with
                  | head | content size | chunkSize | chunk size =>
                      have herror := (@Session.logs_onError members t ec).throwsNoCall.mem_iff
                      simpa [Session.onReadError] using herror
                  | chunkEnd size =>
                      -- the one that does not ask
                      cases hset : members.onError with
                      | true => simp [Session.onReadError, Session.onErrorUnguarded, Session.emit, hset]
                      | false =>
                          simp [Session.onReadError, Session.onErrorUnguarded, Session.emit, hset]

/-! ### Runs -/

/-- **Which runs do not call an `on_error` that is not set**: those in which it is set, or no read of
the line end behind a chunk fails. -/
theorem bad_function_call_iff (members : Members) (config : Config) (order : Order)
    (acts : List Act) :
    .thrown .badFunctionCall ∉ (acts.foldl (act members config order) ({} : Session).read).log ↔
      members.onError = true ∨ ∀ pre a post, acts = pre ++ a :: post →
        ¬ ChunkEndFails (pre.foldl (act members config order) ({} : Session).read) a := by
  induction acts using List.reverseRecOn with
  | nil => simp [Session.read]
  | append_singleton acts a ih =>
      rw [List.foldl_append, List.foldl_cons, List.foldl_nil, thrown_act, not_or, ih]
      cases hset : members.onError with
      | true => simp
      | false =>
          simp only [true_and, Bool.false_eq_true, false_or]
          constructor
          · rintro ⟨hacts, ha⟩ pre b post heq
            rcases Machine.append_singleton_eq_iff.1 heq with ⟨-, rfl, rfl⟩ | ⟨post, -, rfl⟩
            · exact ha
            · exact hacts pre b post rfl
          · intro h
            refine ⟨?_, h acts a [] rfl⟩
            intro pre b post heq
            exact h pre b (post ++ [a]) (by rw [heq]; simp)

/-- What the servers of the program set: `on_upgrade`, and a default resource for each method. -/
def juceMembers : Members where
  onUpgrade := true
  defaultResource :=
    [(ascii "DELETE", 0), (ascii "GET", 0), (ascii "PATCH", 0), (ascii "POST", 0), (ascii "PUT", 0)]

/-- A client that sends a chunk and disconnects before the end of its line. -/
def disconnecting : List Act := [
  .complete true ⟨none, ascii "POST / HTTP/1.1" ++ crlf ++ ascii "Transfer-Encoding: chunked" ++ crlf ++
    crlf ++ ascii "1" ++ crlf ++ ascii "a"⟩,
  .complete true ⟨none, []⟩,
  .complete true ⟨some (.transport 2), []⟩]

/-- **A client that stops the server.** -/
theorem bad_function_call_thrown :
    ¬ ∀ acts : List Act, .thrown .badFunctionCall ∉
      (acts.foldl (act juceMembers {} .insertion) ({} : Session).read).log := by
  intro h
  have hthrown := h disconnecting
  revert hthrown
  decide +kernel

end SimpleWeb.ServerBase
