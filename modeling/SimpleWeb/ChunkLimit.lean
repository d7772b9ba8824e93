/-
**The size limit of a chunked request.**

`read_chunked_transfer_encoded` compares the sum of a chunk's size and of the size of the content so
far with the greatest size of the buffer.  The size of the chunk is any number of 64 bits that the
client likes, and the sum wraps.  When it does, and what is left of it is within the limit, the chunk
is not refused; the buffer is then asked for more than it can hold, which makes `prepare` throw, or a
read report success that has not got what it was asked for.

Main definitions:

* `SimpleWeb.ServerBase.Refuses`, `SimpleWeb.ServerBase.AsksWithin` — the two outcomes of the check;
* `SimpleWeb.ServerBase.LimitKept` — what the check is for.

Main results:

* `SimpleWeb.ServerBase.chunk_limit_iff` — **when exactly the limit is kept**;
* `SimpleWeb.ServerBase.chunk_limit_wraps` — a client that gets around it.
-/

import SimpleWeb.LengthFields

set_option relaxedAutoImplicit false
set_option autoImplicit false

namespace SimpleWeb.ServerBase

/-- The request is treated as one that is too big. -/
def Refuses (s s' : Session) : Prop :=
  ∃ es, s'.log = s.log ++ .unsent .clientErrorPayloadTooLarge :: es

/-- The buffer of the content is not asked for more than it can hold: `prepare` does not throw, and
there is room for what is read next. -/
def AsksWithin (config : Config) (s s' : Session) : Prop :=
  s'.log ≠ s.log ++ [.thrown .lengthError] ∧
    ∀ size, s'.reading = some (.chunk size) →
      s'.streambuf.length + size ≤ config.maxRequestStreambufSize.toNat

/-- A chunk of the given size is refused if and only if it makes the content too big, and otherwise
the buffer is not asked for more than it can hold. -/
def LimitKept (config : Config) (s s' : Session) (chunkSize : ℕ) : Prop :=
  (Refuses s s' ↔ config.maxRequestStreambufSize.toNat < chunkSize + s.streambuf.length) ∧
    (¬ Refuses s s' → AsksWithin config s s')

variable {members : Members} {config : Config} {order : Order} {s s' : Session}

/-! ### The outcomes of the check -/

theorem refuses_payloadTooLarge (s : Session) : Refuses s (s.payloadTooLarge members) := by
  unfold Session.payloadTooLarge Session.onError
  split
  · exact ⟨[.onError .messageSize], by simp [Session.emit]⟩
  · exact ⟨[], rfl⟩

/-- What else is logged is no refusal. -/
theorem not_refuses {es : List Event} (hlog : s'.log = s.log ++ es)
    (hes : es.head? ≠ some (.unsent .clientErrorPayloadTooLarge)) : ¬ Refuses s s' := by
  rintro ⟨es', h⟩
  rw [hlog] at h
  rw [List.append_cancel_left h] at hes
  exact hes rfl

theorem onChunk_log (chunkSize : UInt64) (n : ℕ) :
    (s.onChunk config chunkSize n).log = s.log ∨
      (s.onChunk config chunkSize n).log = s.log ++ [.thrown .lengthError] := by
  unfold Session.onChunk
  dsimp only
  split
  · exact Or.inr rfl
  split
  · exact Or.inl rfl
  split
  · exact Or.inl rfl
  · exact Or.inl rfl

/-- A chunk for which there is room asks for nothing more. -/
theorem asksWithin_onChunk {chunkSize : UInt64} (n : ℕ)
    (hroom : chunkSize.toNat + s.streambuf.length ≤ config.maxRequestStreambufSize.toNat) :
    AsksWithin config s (s.onChunk config chunkSize n) := by
  unfold Session.onChunk
  dsimp only
  split
  · next hthrow => omega
  split
  · next hmore =>
      refine ⟨by simp, ?_⟩
      intro size hsize
      obtain rfl : chunkSize.toNat - n = size := by simpa using hsize
      simp only [List.length_append, List.length_take]
      omega
  split
  · exact ⟨by simp, nofun⟩
  · exact ⟨by simp [Session.readChunkedTransferEncoded], nofun⟩

/-! ### The check -/

/-- The sum that is compared has wrapped. -/
theorem limitKept_iff {chunkSize : ℕ}
    (hrefuses : Refuses s s' ↔ config.maxRequestStreambufSize.toNat <
      (chunkSize + s.streambuf.length) % 2 ^ 64)
    (hasks : chunkSize + s.streambuf.length ≤ config.maxRequestStreambufSize.toNat →
      AsksWithin config s s') :
    LimitKept config s s' chunkSize ↔
      chunkSize + s.streambuf.length < 2 ^ 64 ∨
        config.maxRequestStreambufSize.toNat < (chunkSize + s.streambuf.length) % 2 ^ 64 := by
  have hmax := config.maxRequestStreambufSize.toNat_lt
  have hmod := Nat.mod_le (chunkSize + s.streambuf.length) (2 ^ 64)
  rw [LimitKept, hrefuses]
  constructor
  · rintro ⟨hiff, -⟩
    by_contra hnot
    rw [not_or, not_lt] at hnot
    exact hnot.2 (hiff.2 (by omega))
  · intro h
    have hiff : config.maxRequestStreambufSize.toNat < (chunkSize + s.streambuf.length) % 2 ^ 64 ↔
        config.maxRequestStreambufSize.toNat < chunkSize + s.streambuf.length := by
      rcases h with h | h
      · rw [Nat.mod_eq_of_lt h]
      · exact iff_of_true h (by omega)
    refine ⟨hiff, ?_⟩
    intro hnot
    rw [hiff] at hnot
    exact hasks (by omega)

/-- **What the check does**, in the handler of the read of a chunk size. -/
theorem limitKept_onChunkSize
    (hcontent : s.streambuf.length ≤ config.maxRequestStreambufSize.toNat)
    (hreading : s.reading = none) {line rest : Bytes} (hline : getline s.chunkSizeStreambuf = some (line, rest))
    {chunkSize : UInt64} (hsize : strtoull 16 line = some chunkSize) (n : ℕ) :
    LimitKept config s (s.onChunkSize members config order n) chunkSize.toNat ↔
      chunkSize.toNat + s.streambuf.length < 2 ^ 64 ∨
        config.maxRequestStreambufSize.toNat <
          (chunkSize.toNat + s.streambuf.length) % 2 ^ 64 := by
  have hmax := config.maxRequestStreambufSize.toNat_lt
  have hsum : (chunkSize + UInt64.ofNat s.streambuf.length).toNat =
      (chunkSize.toNat + s.streambuf.length) % 2 ^ 64 := by
    rw [UInt64.toNat_add, UInt64.toNat_ofNat', Nat.add_mod_mod]
  rw [onChunkSize_line hline, hsize]
  dsimp only [Session.proceedChunk]
  split
  · next hzero =>
      -- the last chunk
      obtain ⟨es, responding, heq, -⟩ := @Session.findResource_eq members order
        { s with chunkSizeStreambuf := rest }
      have hlog := congrArg Session.log heq
      dsimp only at hlog
      have hread := (@Session.logs_findResource members order
        { s with chunkSizeStreambuf := rest }).reading
      refine limitKept_iff (iff_of_false (not_refuses hlog (by simp)) ?_) ?_
      · rw [hzero, UInt64.toNat_zero, Nat.zero_add, Nat.mod_eq_of_lt (by omega)]
        omega
      · intro _
        refine ⟨by rw [hlog]; simp, ?_⟩
        intro size hchunk
        rw [hread, show ({ s with chunkSizeStreambuf := rest } : Session).reading = none from hreading]
          at hchunk
        cases hchunk
  split
  · next hbig =>
      rw [gt_iff_lt, UInt64.lt_iff_toNat_lt, hsum] at hbig
      refine limitKept_iff (iff_of_true (refuses_payloadTooLarge _) hbig) ?_
      have hmod := Nat.mod_le (chunkSize.toNat + s.streambuf.length) (2 ^ 64)
      intro hroom
      omega
  · next hsmall =>
      rw [gt_iff_lt, UInt64.lt_iff_toNat_lt, hsum] at hsmall
      refine limitKept_iff (iff_of_false ?_ hsmall) ?_
      · rcases @onChunk_log config { s with chunkSizeStreambuf := rest } chunkSize
          (sizeSub rest.length (sizeSub n (line.length + 1))) with hlog | hlog
        · exact @not_refuses s _ [] (by rw [hlog, List.append_nil]) (by simp)
        · exact not_refuses hlog (by simp)
      · intro hroom
        exact @asksWithin_onChunk config { s with chunkSizeStreambuf := rest } chunkSize _ hroom

/-- In the completion of the read of a chunk size. -/
theorem limitKept_complete
    (hcontent : s.streambuf.length ≤ config.maxRequestStreambufSize.toNat)
    (hop : s.reading = some .chunkSize) {k : Completion UInt8 ErrorCode} (hk : k.ec = none)
    {line rest : Bytes} (hline : getline (s.chunkSizeStreambuf ++ k.data) = some (line, rest))
    {chunkSize : UInt64} (hsize : strtoull 16 line = some chunkSize) :
    LimitKept config s (s.complete members config order true k) chunkSize.toNat ↔
      chunkSize.toNat + s.streambuf.length < 2 ^ 64 ∨
        config.maxRequestStreambufSize.toNat <
          (chunkSize.toNat + s.streambuf.length) % 2 ^ 64 := by
  have hcheck := @limitKept_onChunkSize members config order { s with
    reading := none
    chunkSizeStreambuf := s.chunkSizeStreambuf ++ k.data } hcontent rfl line rest hline
      chunkSize hsize ((endOf crlf (s.chunkSizeStreambuf ++ k.data)).getD 0)
  unfold Session.complete
  rw [hop, hk]
  exact hcheck

/-- **When exactly the limit is kept.**  In every state of a connection in which the size of a chunk is
read, and for every line that is a size, the chunk is refused if and only if it makes the content too
big, and the buffer is not asked for more than it can hold otherwise, if and only if the sum of the two
sizes does not wrap, or what is left of it is still too big. -/
theorem chunk_limit_iff (hs : Reachable members config order s) (hop : s.reading = some .chunkSize)
    {k : Completion UInt8 ErrorCode} (hk : k.ec = none) {line rest : Bytes}
    (hline : getline (s.chunkSizeStreambuf ++ k.data) = some (line, rest)) {chunkSize : UInt64}
    (hsize : strtoull 16 line = some chunkSize) :
    LimitKept config s (s.complete members config order true k) chunkSize.toNat ↔
      chunkSize.toNat + s.streambuf.length < 2 ^ 64 ∨
        config.maxRequestStreambufSize.toNat <
          (chunkSize.toNat + s.streambuf.length) % 2 ^ 64 :=
  limitKept_complete hs.fits.content hop hk hline hsize

/-! #### A client that gets around the limit -/

/-- A request whose first chunk is one byte, and whose second one has the greatest size. -/
def wrappingRequest : Bytes :=
  ascii "POST / HTTP/1.1" ++ crlf ++ ascii "Transfer-Encoding: chunked" ++ crlf ++ crlf ++
    ascii "1" ++ crlf ++ ascii "a" ++ crlf ++ ascii "ffffffffffffffff" ++ crlf

/-- The limit of the servers of the program. -/
def wrappingConfig : Config := { maxRequestStreambufSize := 1000000 }

/-- The state in which the size of the first chunk is read. -/
def firstChunk : Session where
  request := ⟨ascii "POST", ascii "/", [], ascii "1.1", [(ascii "Transfer-Encoding", ascii "chunked")]⟩
  chunkSizeStreambuf := ascii "1" ++ crlf ++ ascii "a" ++ crlf ++ ascii "ffffffffffffffff" ++ crlf
  chunkSizeMaxSize := 24
  reading := some .chunkSize

/-- The state in which the size of the second chunk is read. -/
def secondChunk : Session :=
  { firstChunk with
    streambuf := ascii "a"
    chunkSizeStreambuf := ascii "ffffffffffffffff" ++ crlf }

theorem reachable_firstChunk : Reachable {} wrappingConfig .insertion firstChunk := by
  have hhead : Allowed wrappingConfig ({} : Session).read (.complete true ⟨none, wrappingRequest⟩) :=
    ⟨.head, rfl, by unfold Session.AllowedRead AllowedUntil; decide +kernel⟩
  have heq : act {} wrappingConfig .insertion ({} : Session).read
      (.complete true ⟨none, wrappingRequest⟩) = firstChunk := by
    decide +kernel
  have hstart : Reachable {} wrappingConfig .insertion ({} : Session).read := Machine.Reach.init rfl
  have hstep := Machine.Reach.step hstart hhead
  rw [heq] at hstep
  exact hstep

theorem reachable_secondChunk : Reachable {} wrappingConfig .insertion secondChunk := by
  have hsize : Allowed wrappingConfig firstChunk (.complete true ⟨none, []⟩) :=
    ⟨.chunkSize, rfl, by unfold Session.AllowedRead AllowedUntil; decide +kernel⟩
  have heq : act {} wrappingConfig .insertion firstChunk (.complete true ⟨none, []⟩) =
      secondChunk := by
    decide +kernel
  have hstep := Machine.Reach.step reachable_firstChunk hsize
  rw [heq] at hstep
  exact hstep

/-- The second chunk is not refused, and the buffer is asked for much more than it can hold. -/
theorem chunk_limit_wraps :
    ¬ ∀ s, Reachable {} wrappingConfig .insertion s → s.reading = some .chunkSize →
      ∀ k line rest chunkSize, k.ec = none →
        getline (s.chunkSizeStreambuf ++ k.data) = some (line, rest) →
        strtoull 16 line = some chunkSize →
        LimitKept wrappingConfig s (s.complete {} wrappingConfig .insertion true k)
          chunkSize.toNat := by
  intro h
  have hline : getline (secondChunk.chunkSizeStreambuf ++ []) =
      some (ascii "ffffffffffffffff" ++ [13], []) := by
    decide
  have hsize : strtoull 16 (ascii "ffffffffffffffff" ++ [13]) = some sizeMax := by
    decide +kernel
  have hkept := h secondChunk reachable_secondChunk rfl ⟨none, []⟩ _ _ _ rfl hline hsize
  have hwraps := (limitKept_complete (by decide) rfl rfl hline hsize).1 hkept
  revert hwraps
  decide

/-- The first chunk is not refused, and there is room for it. -/
theorem chunk_limit_iff_first :
    LimitKept wrappingConfig firstChunk
      (firstChunk.complete {} wrappingConfig .insertion true ⟨none, []⟩) (1 : UInt64).toNat := by
  have hline : getline (firstChunk.chunkSizeStreambuf ++ []) = some (ascii "1" ++ [13],
      ascii "a" ++ crlf ++ ascii "ffffffffffffffff" ++ crlf) := by
    decide
  have hsize : strtoull 16 (ascii "1" ++ [13]) = some 1 := by
    decide +kernel
  exact (chunk_limit_iff reachable_firstChunk rfl (k := ⟨none, []⟩) rfl hline hsize).2
    (Or.inl (by decide))

end SimpleWeb.ServerBase
