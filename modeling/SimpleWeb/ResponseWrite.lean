/-
**The bytes of a response.**

`Response::write` and `Response::write_header` (`webserver/server_http.hpp`) write a status line, the
fields of a header, and a content.  While it writes the fields, `write_header` looks for those that say
how the end of the content is found; a `Content-Length` is added if there is none, and if the connection
is not closed after the response.

Main definitions:

* `SimpleWeb.ServerBase.Response.writeHeader`, `SimpleWeb.ServerBase.Response.writeStatus`,
  `SimpleWeb.ServerBase.Response.writeContent` — `write_header`, and `write` without and with a
  content;
* `SimpleWeb.ServerBase.Response.contentLength` — the field that is added, if any.

Main results:

* `SimpleWeb.ServerBase.Response.writeContent_eq`, `SimpleWeb.ServerBase.Response.writeStatus_eq` —
  what is written, as lines;
* `SimpleWeb.ServerBase.response_reads_back` — **the parser of responses reads it back**, and leaves
  the content.
-/

import SimpleWeb.HandshakeAgree
import SimpleWeb.Response

set_option relaxedAutoImplicit false
set_option autoImplicit false

namespace SimpleWeb.ServerBase

namespace Response

variable {κ : Type*}

/-! ### Writing -/

/-- What `write_header` has found among the fields so far. -/
structure HeaderFlags where
  contentLengthWritten : Bool := false
  chunkedTransferEncoding : Bool := false

/-- The branches of the loop of `write_header`. -/
def HeaderFlags.scan (flags : HeaderFlags) (field : Bytes × Bytes) : HeaderFlags :=
  if !flags.contentLengthWritten && caseInsensitiveEqual field.1 (ascii "content-length") then
    { flags with contentLengthWritten := true }
  else if !flags.chunkedTransferEncoding &&
      caseInsensitiveEqual field.1 (ascii "transfer-encoding") &&
      caseInsensitiveEqual field.2 (ascii "chunked") then
    { flags with chunkedTransferEncoding := true }
  else flags

/-- The body of the loop of `write_header`. -/
def writeField (p : HeaderFlags × Response κ) (field : Bytes × Bytes) : HeaderFlags × Response κ :=
  (p.1.scan field, p.2.write (field.1 ++ ascii ": " ++ field.2 ++ crlf))

/-- `write_header`.  A size of -1 is that of a stream that does not know its size. -/
def writeHeader (r : Response κ) (order : Order) (header : CaseInsensitiveMultimap) (size : ℤ) :
    Response κ :=
  let (flags, r) := (order.elements header).foldl writeField ({}, r)
  if !flags.contentLengthWritten && !flags.chunkedTransferEncoding &&
      !r.closeConnectionAfterResponse && size ≠ -1 then
    r.write (ascii "Content-Length: " ++ toDecimal size.toNat ++ crlf ++ crlf)
  else r.write crlf

/-- `write(status_code, header)`. -/
def writeStatus (r : Response κ) (order : Order) (statusCode : StatusCode)
    (header : CaseInsensitiveMultimap) : Response κ :=
  let r := r.write (ascii "HTTP/1.1 " ++ SimpleWeb.statusCode statusCode ++ crlf)
  r.writeHeader order header 0

/-- `write(status_code, content, header)`. -/
def writeContent (r : Response κ) (order : Order) (statusCode : StatusCode) (content : Bytes)
    (header : CaseInsensitiveMultimap) : Response κ :=
  let r := r.write (ascii "HTTP/1.1 " ++ SimpleWeb.statusCode statusCode ++ crlf)
  let r := r.writeHeader order header content.length
  if content ≠ [] then r.write content else r

/-! ### The fields that say how long the content is -/

def IsContentLength (f : Bytes × Bytes) : Prop := Named (ascii "content-length") f

def IsChunked (f : Bytes × Bytes) : Prop :=
  Named (ascii "transfer-encoding") f ∧ caseInsensitiveEqual f.2 (ascii "chunked") = true

instance : DecidablePred IsContentLength := fun f =>
  inferInstanceAs (Decidable (Named (ascii "content-length") f))

instance : DecidablePred IsChunked := fun f =>
  inferInstanceAs (Decidable (Named (ascii "transfer-encoding") f ∧
    caseInsensitiveEqual f.2 (ascii "chunked") = true))

/-- The field that is added to a header: none if there is one already, if the content is sent in chunks,
or if the connection is closed behind it. -/
def contentLength (closeConnectionAfterResponse : Bool) (header : CaseInsensitiveMultimap) (size : ℕ) :
    CaseInsensitiveMultimap :=
  if (∃ f ∈ header, IsContentLength f) ∨ (∃ f ∈ header, IsChunked f) ∨
      closeConnectionAfterResponse = true then []
  else [(ascii "Content-Length", toDecimal size)]

/-- No field is both. -/
theorem not_isChunked {f : Bytes × Bytes} (h : IsContentLength f) : ¬ IsChunked f := by
  rintro ⟨hname, -⟩
  have hlower : (ascii "content-length").map tolower = (ascii "transfer-encoding").map tolower := by
    simp only [IsContentLength, Named, caseInsensitiveEqual, beq_iff_eq] at h hname
    rw [← h, hname]
  revert hlower
  decide

/-- One field: the order of the branches does not matter. -/
theorem scan_eq (flags : HeaderFlags) (f : Bytes × Bytes) :
    flags.scan f = ⟨flags.contentLengthWritten || decide (IsContentLength f),
      flags.chunkedTransferEncoding || decide (IsChunked f)⟩ := by
  obtain ⟨contentLengthWritten, chunkedTransferEncoding⟩ := flags
  have hlength : caseInsensitiveEqual f.1 (ascii "content-length") = decide (IsContentLength f) :=
    Bool.eq_iff_iff.2 (decide_eq_true_iff (p := IsContentLength f)).symm
  have hchunked : (caseInsensitiveEqual f.1 (ascii "transfer-encoding") &&
      caseInsensitiveEqual f.2 (ascii "chunked")) = decide (IsChunked f) :=
    Bool.eq_iff_iff.2 (Bool.and_eq_true_iff.trans (decide_eq_true_iff (p := IsChunked f)).symm)
  rw [HeaderFlags.scan, Bool.and_assoc, hlength, hchunked]
  by_cases h : IsContentLength f
  · have hnot := not_isChunked h
    cases contentLengthWritten <;> simp [h, hnot]
  · cases chunkedTransferEncoding <;> by_cases hc : IsChunked f <;> simp [h, hc]

/-- All fields: what is found does not depend on their order. -/
theorem foldl_scan (flags : HeaderFlags) (fields : CaseInsensitiveMultimap) :
    fields.foldl HeaderFlags.scan flags =
      ⟨flags.contentLengthWritten || decide (∃ f ∈ fields, IsContentLength f),
        flags.chunkedTransferEncoding || decide (∃ f ∈ fields, IsChunked f)⟩ := by
  induction fields generalizing flags with
  | nil => simp
  | cons f fields ih =>
      rw [List.foldl_cons, ih, scan_eq]
      simp only [List.mem_cons, exists_eq_or_imp, Bool.decide_or, Bool.or_assoc]

/-! ### What is written -/

/-- Only the stream is written to. -/
theorem write_write (r : Response κ) (a b : Bytes) : (r.write a).write b = r.write (a ++ b) := by
  simp [write]

theorem foldl_writeField (flags : HeaderFlags) (r : Response κ) (fields : CaseInsensitiveMultimap) :
    fields.foldl writeField (flags, r) =
      (fields.foldl HeaderFlags.scan flags, r.write (writeFields fields)) := by
  induction fields generalizing flags r with
  | nil => simp [writeFields, write]
  | cons f fields ih =>
      have hcons : writeFields (f :: fields) = f.1 ++ ascii ": " ++ f.2 ++ crlf ++ writeFields fields :=
        List.flatMap_cons
      rw [List.foldl_cons, List.foldl_cons, writeField, ih, write_write, hcons]

/-- **The fields are written one on a line**, and the one that is added is the last of them. -/
theorem writeHeader_eq (r : Response κ) (order : Order) (header : CaseInsensitiveMultimap)
    (size : ℕ) :
    r.writeHeader order header size = r.write (HttpHeader.fieldLines (order.elements header ++
      contentLength r.closeConnectionAfterResponse header size)) := by
  have hlength : (∃ f ∈ order.elements header, IsContentLength f) ↔
      ∃ f ∈ header, IsContentLength f := by
    simp only [order.mem_elements]
  have hchunked : (∃ f ∈ order.elements header, IsChunked f) ↔ ∃ f ∈ header, IsChunked f := by
    simp only [order.mem_elements]
  have hsize : (size : ℤ) ≠ -1 := by omega
  have hadded : (!(false || decide (∃ f ∈ order.elements header, IsContentLength f)) &&
      !(false || decide (∃ f ∈ order.elements header, IsChunked f)) &&
      !(r.write (writeFields (order.elements header))).closeConnectionAfterResponse &&
      decide ((size : ℤ) ≠ -1)) = true ↔
        ¬ ((∃ f ∈ header, IsContentLength f) ∨ (∃ f ∈ header, IsChunked f) ∨
          r.closeConnectionAfterResponse = true) := by
    rw [not_or, not_or, ← hlength, ← hchunked]
    simp [hsize, write, and_assoc]
  have happend : ∀ fields : CaseInsensitiveMultimap, writeFields (order.elements header ++ fields) =
      writeFields (order.elements header) ++ writeFields fields := fun _ => List.flatMap_append
  have hname : ascii "Content-Length: " = ascii "Content-Length" ++ ascii ": " := rfl
  rw [← writeFields_eq, happend, writeHeader, foldl_writeField, foldl_scan, contentLength]
  dsimp only
  by_cases h : (∃ f ∈ header, IsContentLength f) ∨ (∃ f ∈ header, IsChunked f) ∨
      r.closeConnectionAfterResponse = true
  · rw [if_neg (fun hcond => hadded.1 hcond h), if_pos h, write_write]
    simp [writeFields]
  · rw [if_pos (hadded.2 h), if_neg h, write_write, hname]
    simp [writeFields]

/-- What is written by `write`. -/
def contentBytes (r : Response κ) (order : Order) (statusCode : StatusCode) (content : Bytes)
    (header : CaseInsensitiveMultimap) : Bytes :=
  ResponseMessage.statusLine (ascii "1.1") (SimpleWeb.statusCode statusCode) ++ 10 ::
    (HttpHeader.fieldLines (order.elements header ++
      contentLength r.closeConnectionAfterResponse header content.length) ++ content)

/-- **What is written to the stream**, as lines and the content behind them. -/
theorem writeContent_eq (r : Response κ) (order : Order) (statusCode : StatusCode) (content : Bytes)
    (header : CaseInsensitiveMultimap) :
    r.writeContent order statusCode content header =
      r.write (r.contentBytes order statusCode content header) := by
  have hline : ascii "HTTP/1.1 " = ascii "HTTP/" ++ ascii "1.1" ++ ascii " " := rfl
  have hcontent : ∀ r' : Response κ, (if content ≠ [] then r'.write content else r') =
      r'.write content := by
    intro r'
    split
    · rfl
    · next h =>
        rw [not_not.1 h]
        simp [write]
  rw [writeContent, hcontent, writeHeader_eq, write_write, write_write, contentBytes, hline]
  congr 1
  simp [ResponseMessage.statusLine, write, crlf]

/-- Without a content it is the same. -/
theorem writeStatus_eq (r : Response κ) (order : Order) (statusCode : StatusCode)
    (header : CaseInsensitiveMultimap) :
    r.writeStatus order statusCode header =
      r.write (r.contentBytes order statusCode [] header) := by
  rw [← writeContent_eq, writeContent, if_neg (not_not.2 rfl)]
  rfl

/-- The field that is added can be written on a line. -/
theorem plain_contentLength (closeConnectionAfterResponse : Bool) (header : CaseInsensitiveMultimap)
    (size : ℕ) : ∀ f ∈ contentLength closeConnectionAfterResponse header size, HttpHeader.Plain f := by
  intro f hf
  rw [contentLength] at hf
  split at hf
  · cases hf
  · obtain rfl := List.mem_singleton.1 hf
    exact (token_toDecimal size).plain (by decide)

end Response

/-- **What `write` writes, the parser of responses reads back.**  For every header that can be written,
the version and the status are those written, the fields are those of the header and the one that says
how long the content is, if it is needed, and the content is left in the stream. -/
theorem response_reads_back {κ : Type*} (r : Response κ) (order : Order) (statusCode : StatusCode)
    (content : Bytes) {header : CaseInsensitiveMultimap} (hplain : ∀ f ∈ header, HttpHeader.Plain f)
    (out : ResponseMessage) :
    ∃ bytes fields,
      (r.writeContent order statusCode content header).streambuf = r.streambuf ++ bytes ∧
      ResponseMessage.parse bytes out =
        .ok (true, ⟨ascii "1.1", SimpleWeb.statusCode statusCode, fields⟩, content) ∧
      fields.Perm (header ++
        Response.contentLength r.closeConnectionAfterResponse header content.length) := by
  have hfields : ∀ f ∈ order.elements header ++
      Response.contentLength r.closeConnectionAfterResponse header content.length,
        HttpHeader.Plain f := by
    intro f hf
    rcases List.mem_append.1 hf with hf | hf
    · exact hplain f (order.mem_elements.1 hf)
    · exact Response.plain_contentLength _ _ _ f hf
  refine ⟨r.contentBytes order statusCode content header, order.elements header ++
    Response.contentLength r.closeConnectionAfterResponse header content.length, ?_, ?_, ?_⟩
  · rw [Response.writeContent_eq]
    rfl
  · exact ResponseMessage.parse_response (by decide) (crlf_not_mem_statusCode statusCode).2
      (HttpHeader.parse_fields hfields content) out
  · exact (order.2 header).append_right _

/-! #### A header with a repeated name and an empty value -/

def sampleHeader : CaseInsensitiveMultimap := [(ascii "Server", ascii "a"), (ascii "server", [])]

theorem response_reads_back_sample :
    ∃ bytes fields,
      (({ session := sampleSession } : Response ℕ).writeContent .insertion .successOk (ascii "hello")
        sampleHeader).streambuf = bytes ∧
      ResponseMessage.parse bytes {} = .ok (true, ⟨ascii "1.1", ascii "200 OK", fields⟩,
        ascii "hello") ∧
      fields.Perm (sampleHeader ++ [(ascii "Content-Length", ascii "5")]) := by
  have hstatus : SimpleWeb.statusCode .successOk = ascii "200 OK" := by decide +kernel
  have hadded : Response.contentLength false sampleHeader (ascii "hello").length =
      [(ascii "Content-Length", ascii "5")] := by
    decide +kernel
  obtain ⟨bytes, fields, hbytes, hparse, hperm⟩ :=
    response_reads_back ({ session := sampleSession } : Response ℕ) .insertion .successOk
      (ascii "hello") (show ∀ f ∈ sampleHeader, HttpHeader.Plain f by decide) {}
  rw [hstatus] at hparse
  rw [show ({ session := sampleSession } : Response ℕ).closeConnectionAfterResponse = false from rfl,
    hadded] at hperm
  exact ⟨bytes, fields, hbytes, hparse, hperm⟩

end SimpleWeb.ServerBase
