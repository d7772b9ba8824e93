/-
**The numbers that say how long a request is.**

`read` takes the length of the content from the `Content-Length` field, and
`read_chunked_transfer_encoded` the length of a chunk from the line in front of it.  Both leave it to
the library to read the number, and report `protocol_error` when that throws.  The library passes over
white space and a sign, over `"0x"` too where the base is 16, and stops at the first character that is
no digit; neither caller asks where it stopped.

Main definitions:

* `SimpleWeb.IsLength`, `SimpleWeb.IsChunkSize` — the well-formed values;
* `SimpleWeb.ServerBase.Session.proceed`, `SimpleWeb.ServerBase.Session.proceedChunk` — what the
  handlers do with a number;
* `SimpleWeb.ServerBase.ReadsLength`, `SimpleWeb.ServerBase.ReadsChunkSize` — what they should do with
  a value.

Main results:

* `SimpleWeb.strtoull_isLength`, `SimpleWeb.strtoull_isChunkSize` — well-formed values are read;
* `SimpleWeb.ServerBase.reads_lengths_iff` — **the values that are treated as they should be**.
-/

import SimpleWeb.ServerBase

set_option relaxedAutoImplicit false
set_option autoImplicit false

namespace SimpleWeb

/-! ### Well-formed values -/

/-- A non-empty string of digits that fits into 64 bits, and the number it denotes. -/
structure IsNumber (base : ℕ) (s : Bytes) (n : ℕ) : Prop where
  ne_nil : s ≠ []
  digits : ∀ c ∈ s, isDigit base c = true
  value : digitsValue base s = n
  range : n < 2 ^ 64

/-- A value of `Content-Length`. -/
def IsLength (value : Bytes) (n : ℕ) : Prop := IsNumber 10 value n

/-- The line in front of a chunk: a number, perhaps a semicolon and extensions, a carriage return. -/
def IsChunkSize (line : Bytes) (n : ℕ) : Prop :=
  ∃ digits extensions, line = digits ++ (extensions ++ [13]) ∧ IsNumber 16 digits n ∧
    ∀ c ∈ extensions.head?, c = 59

theorem strtoull_isLength {value : Bytes} {n : ℕ} (h : IsLength value n) :
    strtoull 10 value = some (UInt64.ofNat n) := by
  have hrange : digitsValue 10 value < 2 ^ 64 := by
    rw [h.value]
    exact h.range
  have hread := @strtoull_digits_append 10 (by omega) value h.ne_nil h.digits hrange [] nofun
  rwa [List.append_nil, h.value] at hread

theorem strtoull_isChunkSize {line : Bytes} {n : ℕ} (h : IsChunkSize line n) :
    strtoull 16 line = some (UInt64.ofNat n) := by
  obtain ⟨digits, extensions, rfl, hnumber, hext⟩ := h
  have hrange : digitsValue 16 digits < 2 ^ 64 := by
    rw [hnumber.value]
    exact hnumber.range
  rw [← hnumber.value]
  refine strtoull_digits_append le_rfl hnumber.ne_nil hnumber.digits hrange ?_
  intro c hc
  cases extensions with
  | nil =>
      obtain rfl : 13 = c := Option.some.inj hc
      decide
  | cons b extensions =>
      obtain rfl : b = c := Option.some.inj hc
      obtain rfl : b = 59 := hext b rfl
      decide

theorem toNat_ofNat_of_range {n : ℕ} (h : n < 2 ^ 64) : (UInt64.ofNat n).toNat = n := by
  rw [UInt64.toNat_ofNat', Nat.mod_eq_of_lt h]

namespace ServerBase

/-! ### What the handlers do with a number -/

namespace Session

variable (members : Members) (config : Config) (order : Order)

/-- What `read` does with a length of the content. -/
def proceed (s : Session) (contentLength numAdditionalBytes : ℕ) : Session :=
  if contentLength > config.maxRequestStreambufSize.toNat then s.payloadTooLarge members
  else if contentLength > numAdditionalBytes then
    { s with reading := some (.content (contentLength - numAdditionalBytes)) }
  else s.findResource members order

/-- What `read_chunked_transfer_encoded` does with the size of a chunk. -/
def proceedChunk (s : Session) (chunkSize : UInt64) (numAdditionalBytes : ℕ) : Session :=
  if chunkSize = 0 then s.findResource members order
  else if chunkSize + UInt64.ofNat s.streambuf.length > config.maxRequestStreambufSize then
    s.payloadTooLarge members
  else s.onChunk config chunkSize numAdditionalBytes

end Session

variable {members : Members} {config : Config} {order : Order} {s : Session}

theorem onParsed_length {name value : Bytes}
    (hfield : findField order s.request.header (ascii "Content-Length") = some (name, value))
    (n : ℕ) :
    s.onParsed members config order n =
      match strtoull 10 value with
      | none => s.onError members .protocolError
      | some contentLength => s.proceed members config order contentLength.toNat n := by
  unfold Session.onParsed
  rw [hfield]
  rfl

theorem onChunkSize_line {line rest : Bytes}
    (hline : getline s.chunkSizeStreambuf = some (line, rest)) (n : ℕ) :
    s.onChunkSize members config order n =
      match strtoull 16 line with
      | none => { s with chunkSizeStreambuf := rest }.onError members .protocolError
      | some chunkSize =>
          { s with chunkSizeStreambuf := rest }.proceedChunk members config order chunkSize
            (sizeSub rest.length (sizeSub n (line.length + 1))) := by
  unfold Session.onChunkSize
  rw [hline]
  rfl

/-- There is something to read, or something else than the error has been logged. -/
def Proceeds (s s' : Session) : Prop :=
  s'.reading ≠ none ∨ ∃ e es, s'.log = s.log ++ e :: es ∧ e ≠ .onError .protocolError

/-- The error is all there is on its path. -/
theorem not_proceeds_onError (hreading : s.reading = none) :
    ¬ Proceeds s (s.onError members .protocolError) := by
  unfold Session.onError
  split
  · rintro (h | ⟨e, es, hlog, he⟩)
    · exact h hreading
    · obtain ⟨rfl, -⟩ := List.cons.inj (List.append_cancel_left hlog)
      exact he rfl
  · rintro (h | ⟨e, es, hlog, -⟩)
    · exact h hreading
    · have hlen := congrArg List.length hlog
      simp at hlen

theorem proceeds_findResource : Proceeds s (s.findResource members order) := by
  obtain ⟨es, responding, heq, -⟩ := @Session.findResource_eq members order s
  rw [heq]
  exact Or.inr ⟨_, es, rfl, nofun⟩

theorem proceeds_payloadTooLarge : Proceeds s (s.payloadTooLarge members) := by
  unfold Session.payloadTooLarge Session.onError
  split
  · exact Or.inr ⟨.unsent .clientErrorPayloadTooLarge, [.onError .messageSize],
      by simp [Session.emit], nofun⟩
  · exact Or.inr ⟨.unsent .clientErrorPayloadTooLarge, [], rfl, nofun⟩

theorem proceeds_proceed (contentLength n : ℕ) :
    Proceeds s (s.proceed members config order contentLength n) := by
  unfold Session.proceed
  split
  · exact proceeds_payloadTooLarge
  split
  · exact Or.inl nofun
  · exact proceeds_findResource

theorem proceeds_onChunk (chunkSize : UInt64) (n : ℕ) :
    Proceeds s (s.onChunk config chunkSize n) := by
  unfold Session.onChunk
  dsimp only
  split
  · exact Or.inr ⟨.thrown .lengthError, [], rfl, nofun⟩
  split
  · exact Or.inl nofun
  split
  · exact Or.inl nofun
  · exact Or.inl nofun

theorem proceeds_proceedChunk (chunkSize : UInt64) (n : ℕ) :
    Proceeds s (s.proceedChunk members config order chunkSize n) := by
  unfold Session.proceedChunk
  split
  · exact proceeds_findResource
  split
  · exact proceeds_payloadTooLarge
  · exact proceeds_onChunk chunkSize n

/-! ### What they should do with a value -/

/-- A well-formed length is used as the number it denotes, and for any other the error is reported,
and nothing else. -/
def ReadsLength (members : Members) (config : Config) (order : Order) (s : Session) (n : ℕ)
    (value : Bytes) : Prop :=
  (∀ contentLength, IsLength value contentLength →
    s.onParsed members config order n = s.proceed members config order contentLength n) ∧
  ((¬ ∃ contentLength, IsLength value contentLength) →
    s.onParsed members config order n = s.onError members .protocolError)

/-- A well-formed size of a chunk is used as the number it denotes, and for any other line the error is
reported, and nothing else. -/
def ReadsChunkSize (members : Members) (config : Config) (order : Order) (s : Session) (n : ℕ)
    (line rest : Bytes) : Prop :=
  (∀ chunkSize, IsChunkSize line chunkSize →
    s.onChunkSize members config order n =
      { s with chunkSizeStreambuf := rest }.proceedChunk members config order
        (UInt64.ofNat chunkSize) (sizeSub rest.length (sizeSub n (line.length + 1)))) ∧
  ((¬ ∃ chunkSize, IsChunkSize line chunkSize) →
    s.onChunkSize members config order n =
      { s with chunkSizeStreambuf := rest }.onError members .protocolError)

theorem readsLength_iff {name value : Bytes} (hreading : s.reading = none)
    (hfield : findField order s.request.header (ascii "Content-Length") = some (name, value))
    (n : ℕ) :
    ReadsLength members config order s n value ↔
      (∃ contentLength, IsLength value contentLength) ∨ strtoull 10 value = none := by
  have heq := @onParsed_length members config order s name value hfield n
  constructor
  · rintro ⟨-, hreject⟩
    by_contra hnot
    obtain ⟨hill, hsome⟩ := not_or.1 hnot
    obtain ⟨contentLength, hread⟩ := Option.ne_none_iff_exists'.1 hsome
    rw [hread, hreject hill] at heq
    dsimp only at heq
    have hproceeds := @proceeds_proceed members config order s contentLength.toNat n
    rw [← heq] at hproceeds
    exact not_proceeds_onError hreading hproceeds
  · intro h
    refine ⟨?_, ?_⟩
    · intro contentLength hlength
      rw [strtoull_isLength hlength] at heq
      rw [heq]
      dsimp only
      rw [toNat_ofNat_of_range hlength.range]
    · intro hill
      rw [h.resolve_left hill] at heq
      exact heq

theorem readsChunkSize_iff {line rest : Bytes} (hreading : s.reading = none)
    (hline : getline s.chunkSizeStreambuf = some (line, rest)) (n : ℕ) :
    ReadsChunkSize members config order s n line rest ↔
      (∃ chunkSize, IsChunkSize line chunkSize) ∨ strtoull 16 line = none := by
  have heq := @onChunkSize_line members config order s line rest hline n
  constructor
  · rintro ⟨-, hreject⟩
    by_contra hnot
    obtain ⟨hill, hsome⟩ := not_or.1 hnot
    obtain ⟨chunkSize, hread⟩ := Option.ne_none_iff_exists'.1 hsome
    rw [hread, hreject hill] at heq
    dsimp only at heq
    have hproceeds := @proceeds_proceedChunk members config order
      { s with chunkSizeStreambuf := rest } chunkSize
      (sizeSub rest.length (sizeSub n (line.length + 1)))
    rw [← heq] at hproceeds
    exact @not_proceeds_onError members { s with chunkSizeStreambuf := rest } hreading hproceeds
  · intro h
    refine ⟨?_, ?_⟩
    · intro chunkSize hsize
      rw [strtoull_isChunkSize hsize] at heq
      exact heq
    · intro hill
      rw [h.resolve_left hill] at heq
      exact heq

/-- **The values that are treated as they should be** are the well-formed ones, and those that do not
begin, behind white space and a sign, with a number that fits into 64 bits. -/
theorem reads_lengths_iff (members : Members) (config : Config) (order : Order) (s : Session)
    (hreading : s.reading = none) (n : ℕ) :
    (∀ name value, findField order s.request.header (ascii "Content-Length") = some (name, value) →
      (ReadsLength members config order s n value ↔
        (∃ contentLength, IsLength value contentLength) ∨
          leadingDigits 10 value = [] ∨ 2 ^ 64 ≤ digitsValue 10 (leadingDigits 10 value))) ∧
    (∀ line rest, getline s.chunkSizeStreambuf = some (line, rest) →
      (ReadsChunkSize members config order s n line rest ↔
        (∃ chunkSize, IsChunkSize line chunkSize) ∨
          leadingDigits 16 line = [] ∨ 2 ^ 64 ≤ digitsValue 16 (leadingDigits 16 line))) := by
  refine ⟨?_, ?_⟩
  · intro name value hfield
    rw [readsLength_iff hreading hfield, strtoull_eq_none_iff]
  · intro line rest hline
    rw [readsChunkSize_iff hreading hline, strtoull_eq_none_iff]

/-- A length of two digits, and a size with an extension. -/
theorem reads_lengths_iff_sample :
    (∀ name value, findField .insertion
        (show Session from { request := { header := [(ascii "Content-Length", ascii "12")] }
                             chunkSizeStreambuf := ascii "1F;a=b\r\n" }).request.header
        (ascii "Content-Length") = some (name, value) →
      (ReadsLength {} {} .insertion { request := { header := [(ascii "Content-Length", ascii "12")] }
                                      chunkSizeStreambuf := ascii "1F;a=b\r\n" } 0 value ↔
        (∃ contentLength, IsLength value contentLength) ∨
          leadingDigits 10 value = [] ∨ 2 ^ 64 ≤ digitsValue 10 (leadingDigits 10 value))) ∧
    (∀ line rest, getline
        (show Session from { request := { header := [(ascii "Content-Length", ascii "12")] }
                             chunkSizeStreambuf := ascii "1F;a=b\r\n" }).chunkSizeStreambuf =
          some (line, rest) →
      (ReadsChunkSize {} {} .insertion
          { request := { header := [(ascii "Content-Length", ascii "12")] }
            chunkSizeStreambuf := ascii "1F;a=b\r\n" } 0 line rest ↔
        (∃ chunkSize, IsChunkSize line chunkSize) ∨
          leadingDigits 16 line = [] ∨ 2 ^ 64 ≤ digitsValue 16 (leadingDigits 16 line))) :=
  reads_lengths_iff {} {} .insertion _ rfl 0

/-- A length with letters behind it is taken for 5, and a size with a minus sign for the greatest
number there is. -/
theorem junk_accepted :
    ({ request := { header := [(ascii "Content-Length", ascii "5abc")] } } : Session).onParsed {} {}
        .insertion 0 =
      { request := { header := [(ascii "Content-Length", ascii "5abc")] }
        reading := some (.content 5) } ∧
    ¬ ReadsLength {} {} .insertion { request := { header := [(ascii "Content-Length", ascii "5abc")] } }
      0 (ascii "5abc") ∧
    strtoull 16 (ascii "-1\r") = some sizeMax ∧
    ¬ ReadsChunkSize {} {} .insertion { chunkSizeStreambuf := ascii "-1\r\n" } 4 (ascii "-1\r") [] := by
  have hlength : ¬ ∃ contentLength, IsLength (ascii "5abc") contentLength := by
    rintro ⟨contentLength, h⟩
    exact absurd (h.digits 97 (by decide)) (by decide)
  have hsize : ¬ ∃ chunkSize, IsChunkSize (ascii "-1\r") chunkSize := by
    rintro ⟨chunkSize, digits, extensions, heq, hnumber, -⟩
    obtain ⟨d, ds, rfl⟩ := List.exists_cons_of_ne_nil hnumber.ne_nil
    obtain ⟨hd, -⟩ :=
      List.cons.inj (show (45 : UInt8) :: [49, 13] = d :: (ds ++ (extensions ++ [13])) from heq)
    rw [← hd] at hnumber
    exact absurd (hnumber.digits 45 (by simp)) (by decide)
  refine ⟨by decide +kernel, ?_, by decide +kernel, ?_⟩
  · rw [@readsLength_iff {} {} .insertion _ (ascii "Content-Length") _ rfl (by decide +kernel)]
    exact not_or.2 ⟨hlength, by decide +kernel⟩
  · rw [readsChunkSize_iff rfl rfl]
    exact not_or.2 ⟨hsize, by decide +kernel⟩

end ServerBase

end SimpleWeb
