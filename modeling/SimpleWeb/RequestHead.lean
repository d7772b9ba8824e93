/-
**Reading a request head.**

A request head ends with its first empty line.  It may arrive in any pieces, and what has been read
along with its end stays in the buffer: that is where the content of the request begins, if it has any.

Main definitions:

* `SimpleWeb.RequestHead` — a head that is taken as a request.

Main results:

* `SimpleWeb.requestHead_line` — a request line and plain fields make a request head;
* `SimpleWeb.ServerBase.readUntil_whole` — a head is read, however it arrives;
* `SimpleWeb.ServerBase.readStep_head` — **what is parsed, and what is left in the buffer**.
-/

import SimpleWeb.ServerBase

set_option relaxedAutoImplicit false
set_option autoImplicit false

namespace SimpleWeb

/-- A head that is taken as a request: it ends with its first empty line, there is a colon on each of
its field lines, and the parser accepts it. -/
structure RequestHead (head : Bytes) (request : RequestMessage) : Prop where
  whole : endOfHead head = some head.length
  regular : RegularHead head
  parsed : ∃ rest, RequestMessage.parse head {} = .ok (true, request, rest)

/-- The delimiter that ends a head. -/
theorem endOf_head (s : Bytes) : endOf (crlf ++ crlf) s = endOfHead s := by
  induction s with
  | nil => rfl
  | cons b s ih =>
      rw [endOf, endOfHead, ih]
      rfl

variable {head : Bytes} {request : RequestMessage}

/-- The parser leaves what is behind the head. -/
theorem RequestHead.parse (h : RequestHead head request) (s : Bytes) :
    RequestMessage.parse (head ++ s) {} = .ok (true, request, s) := by
  obtain ⟨rest, hparsed⟩ := h.parsed
  exact RequestMessage.parse_regular h.whole h.regular hparsed s

theorem RequestHead.endOf_eq (h : RequestHead head request) (s : Bytes) :
    endOf (crlf ++ crlf) (head ++ s) = some head.length :=
  endOf_append ((endOf_head head).trans h.whole) s

theorem RequestHead.length_pos (h : RequestHead head request) : 0 < head.length := by
  have hbounds := endOf_bounds ((endOf_head head).trans h.whole)
  have hdelim : (crlf ++ crlf).length = 4 := rfl
  omega

/-- **A request line and plain fields make a request head.** -/
theorem requestHead_line {method path version : Bytes} {query : Option Bytes}
    (hmethod : 32 ∉ method ∧ 13 ∉ method ∧ 10 ∉ method) (hmark : 63 ∉ path)
    (htarget : 32 ∉ RequestMessage.target path query ∧ 13 ∉ RequestMessage.target path query ∧
      10 ∉ RequestMessage.target path query)
    (hversion : 13 ∉ version ∧ 10 ∉ version) {fields : CaseInsensitiveMultimap}
    (hfields : ∀ f ∈ fields, HttpHeader.Plain f) :
    RequestHead (RequestMessage.requestLine method (RequestMessage.target path query) version ++
        10 :: HttpHeader.fieldLines fields)
      ⟨method, path, query.getD [], version, fields⟩ := by
  have hhttp : (13 : UInt8) ∉ ascii " HTTP/" ∧ (10 : UInt8) ∉ ascii " HTTP/" := by decide
  have hspace : (13 : UInt8) ∉ ascii " " ∧ (10 : UInt8) ∉ ascii " " := by decide
  refine ⟨?_, ?_, ?_⟩
  · have hcr : 13 ∉ method ++ ascii " " ++ RequestMessage.target path query ++ ascii " HTTP/" ++
        version := by
      simp only [List.mem_append, not_or]
      exact ⟨⟨⟨⟨hmethod.2.1, hspace.1⟩, htarget.2.1⟩, hhttp.1⟩, hversion.1⟩
    exact endOfHead_line hcr hfields
  · -- the lines are those that have been written
    have hlines : ∀ l ∈ RequestMessage.requestLine method (RequestMessage.target path query)
        version :: (fields.map HttpHeader.fieldLine ++ [[13]]), 10 ∉ l := by
      intro l hl
      rcases List.mem_cons.1 hl with rfl | hl
      · simp only [RequestMessage.requestLine, List.mem_append, not_or]
        exact ⟨⟨⟨⟨⟨hmethod.2.2, hspace.2⟩, htarget.2.2⟩, hhttp.2⟩, hversion.2⟩, by decide⟩
      · rcases List.mem_append.1 hl with hl | hl
        · obtain ⟨f, hf, rfl⟩ := List.mem_map.1 hl
          simp [HttpHeader.fieldLine, ascii, (hfields f hf).lf_name, (hfields f hf).lf_value]
        · rw [List.mem_singleton.1 hl]
          decide
    have heq : RequestMessage.requestLine method (RequestMessage.target path query) version ++
        10 :: HttpHeader.fieldLines fields =
          HttpHeader.unlines (RequestMessage.requestLine method (RequestMessage.target path query)
            version :: (fields.map HttpHeader.fieldLine ++ [[13]])) := by
      simp [HttpHeader.unlines, HttpHeader.fieldLines, crlf]
    rw [RegularHead, heq, lines_unlines hlines, List.tail_cons, List.dropLast_concat]
    intro l hl
    obtain ⟨f, hf, rfl⟩ := List.mem_map.1 hl
    simp [HttpHeader.fieldLine, ascii]
  · have hparse := HttpHeader.parse_fields hfields []
    rw [List.append_nil] at hparse
    exact ⟨[], RequestMessage.parse_request ⟨hmethod.1, hmethod.2.2⟩ hmark
      ⟨htarget.1, htarget.2.2⟩ hversion.2 hparse {}⟩

namespace ServerBase

variable {members : Members} {config : Config} {order : Order} {log : List Event}

/-- A head is read, however it arrives, and perhaps more. -/
theorem readUntil_whole (hend : endOfHead head = some head.length) {maxSize : ℕ}
    (hroom : head.length ≤ maxSize) {pieces : List Bytes} {s : Bytes}
    (hpieces : pieces.flatten = head ++ s) :
    ∃ surplus rest, readUntil (crlf ++ crlf) maxSize ErrorCode.notFound [] pieces =
        some (⟨none, head ++ surplus⟩, rest) ∧
      surplus ++ rest.flatten = s ∧ (head ++ surplus).length ≤ maxSize := by
  have hfront : endOf (crlf ++ crlf) ([] ++ pieces.flatten) = some head.length := by
    rw [List.nil_append, hpieces]
    exact endOf_append ((endOf_head head).trans hend) s
  obtain ⟨data, rest, hread, hflat, hle, hmax⟩ :=
    @readUntil_found _ ErrorCode _ (crlf ++ crlf) [] _ _ .notFound pieces (by decide) hfront hroom
      (Nat.zero_le _)
  rw [List.nil_append] at hle hmax
  rw [hpieces] at hflat
  -- what was read begins with the head
  obtain ⟨surplus, rfl⟩ : head <+: data := by
    refine List.prefix_of_prefix_length_le ?_ (List.prefix_append data rest.flatten) hle
    rw [hflat]
    exact List.prefix_append head s
  rw [List.append_assoc] at hflat
  exact ⟨surplus, rest, hread, List.append_cancel_left hflat, hmax⟩

/-- The handler of the read of a head. -/
theorem onHead_eq (h : RequestHead head request) {s : Session} {surplus : Bytes}
    (hrequest : s.request = {}) (hstreambuf : s.streambuf = head ++ surplus) :
    s.onHead members config order head.length =
      { s with request, streambuf := surplus }.onParsed members config order surplus.length := by
  have hadditional : (head ++ surplus).length - head.length = surplus.length := by
    rw [List.length_append, Nat.add_sub_cancel_left]
  unfold Session.onHead
  rw [hrequest, hstreambuf, h.parse surplus, hadditional]
  rfl

/-- **What is parsed, and what is left in the buffer.** -/
theorem readStep_head (h : RequestHead head request) {pieces rest : List Bytes} {surplus : Bytes}
    (hread : readUntil (crlf ++ crlf) config.maxRequestStreambufSize.toNat ErrorCode.notFound []
      pieces = some (⟨none, head ++ surplus⟩, rest)) :
    readStep members config order (({ log } : Session).read, pieces) =
      some (({ log, request, streambuf := surplus } : Session).onParsed members config order
        surplus.length, rest) := by
  have hparsed := @onHead_eq _ _ members config order h
    { log, streambuf := head ++ surplus } surplus rfl rfl
  have hcomplete : ({ log } : Session).read.complete members config order true
      ⟨none, head ++ surplus⟩ =
        ({ log, streambuf := head ++ surplus } : Session).onHead members config order
          ((endOf (crlf ++ crlf) (head ++ surplus)).getD 0) := rfl
  rw [h.endOf_eq surplus, Option.getD_some, hparsed] at hcomplete
  have hdeliver : ({ log } : Session).read.deliver config pieces .head =
      some (⟨none, head ++ surplus⟩, rest) := hread
  rw [readStep_eq rfl hdeliver, hcomplete]

end ServerBase

end SimpleWeb
