/-
**Where a head ends, twice.**

`async_read_until` looks for the first `"\r\n\r\n"`, and the callers take the bytes behind it for the
beginning of the content, or of the frames.  `HttpHeader::parse` takes lines from the stream until one
has no colon.  That is the empty line in front of the content when all field lines have a colon; any
other line without one ends the header as well, and the lines behind it are left in the buffer.

Main results:

* `SimpleWeb.HttpHeader.parse_stops` — what the header parser leaves in the stream;
* `SimpleWeb.head_consumed_iff` — **the two ends agree exactly for the heads whose field lines all have
  a colon**.
-/

import SimpleWeb.Http

set_option relaxedAutoImplicit false
set_option autoImplicit false

namespace SimpleWeb

namespace HttpHeader

/-- The first line without a colon. -/
theorem exists_first {ls : List Bytes} (h : ¬ ∀ l ∈ ls, 58 ∈ l) :
    ∃ before line after, ls = before ++ line :: after ∧ (∀ l ∈ before, 58 ∈ l) ∧ 58 ∉ line := by
  induction ls with
  | nil => exact absurd (by simp) h
  | cons l ls ih =>
      by_cases hl : 58 ∈ l
      · obtain ⟨before, line, after, rfl, hbefore, hline⟩ :=
          ih fun hall => h (List.forall_mem_cons.2 ⟨hl, hall⟩)
        exact ⟨l :: before, line, after, rfl, List.forall_mem_cons.2 ⟨hl, hbefore⟩, hline⟩
      · exact ⟨[], l, ls, rfl, by simp, hl⟩

/-- **The header parser stops at the first line without a colon**, and leaves the lines behind it. -/
theorem parse_stops {ls : List Bytes} (hls : ∀ l ∈ ls, 10 ∉ l) (h : ¬ ∀ l ∈ ls, 58 ∈ l) :
    ∃ before line after, ls = before ++ line :: after ∧ 58 ∉ line ∧ ∀ rest,
      parse (unlines ls ++ rest) = .ok (before.flatMap fieldOf, unlines after ++ rest) := by
  obtain ⟨before, line, after, rfl, hbefore, hline⟩ := exists_first h
  have hcolon : ∀ l ∈ before, 10 ∉ l ∧ 58 ∈ l := fun l hl =>
    ⟨hls l (List.mem_append_left _ hl), hbefore l hl⟩
  refine ⟨before, line, after, rfl, hline, ?_⟩
  intro rest
  rw [← parse_lines hcolon ⟨hls line (by simp), hline⟩ (unlines after ++ rest)]
  simp [unlines]

/-- The parser reads up to the empty line exactly when each line in front of it has a colon. -/
theorem parse_rest_iff {ls : List Bytes} (hls : ∀ l ∈ ls, 10 ∉ l) {rest stream : Bytes}
    {fields : CaseInsensitiveMultimap}
    (h : parse (unlines ls ++ ([13] ++ 10 :: rest)) = .ok (fields, stream)) :
    stream = rest ↔ ∀ l ∈ ls, 58 ∈ l := by
  constructor
  · rintro rfl
    by_contra hnot
    obtain ⟨before, line, after, -, -, hstops⟩ := parse_stops hls hnot
    have hparse := hstops ([13] ++ 10 :: stream)
    rw [h] at hparse
    -- what is left has the empty line in it, so that it is longer
    have hlen := congrArg List.length (Prod.mk.inj (Except.ok.inj hparse)).2
    simp only [List.length_append, List.length_cons] at hlen
    omega
  · intro hcolon
    have hparse := parse_lines (fun l hl => ⟨hls l hl, hcolon l hl⟩)
      (show 10 ∉ [(13 : UInt8)] ∧ 58 ∉ [13] by decide) rest
    rw [h] at hparse
    exact (Prod.mk.inj (Except.ok.inj hparse)).2

/-- The same fields are read, whatever is behind the empty line. -/
theorem parse_fixed {ls : List Bytes} (hls : ∀ l ∈ ls, 10 ∉ l) :
    ∃ fields, ∀ rest, ∃ stream, parse (unlines ls ++ ([13] ++ 10 :: rest)) = .ok (fields, stream) := by
  by_cases hcolon : ∀ l ∈ ls, 58 ∈ l
  · exact ⟨_, fun rest => ⟨rest, parse_lines (fun l hl => ⟨hls l hl, hcolon l hl⟩) (by decide) rest⟩⟩
  · obtain ⟨before, line, after, -, -, hstops⟩ := parse_stops hls hcolon
    exact ⟨_, fun rest => ⟨_, hstops ([13] ++ 10 :: rest)⟩⟩

end HttpHeader

/-- What is behind a head does not change the request. -/
theorem RequestMessage.parse_behind {head : Bytes} (hend : endOfHead head = some head.length)
    {out out' : RequestMessage} {rest : Bytes}
    (h : RequestMessage.parse head out = .ok (true, out', rest)) (s : Bytes) :
    ∃ rest', RequestMessage.parse (head ++ s) out = .ok (true, out', rest') := by
  obtain ⟨first, ls, -, hfirst, hls, heq⟩ := lines_head hend
  rw [List.drop_length] at heq
  rw [heq] at h
  obtain ⟨fields, hfields, hstream⟩ := RequestMessage.parse_stream hfirst h
  obtain ⟨fields', hfixed⟩ := HttpHeader.parse_fixed hls
  -- the fields are those in front of the empty line
  obtain ⟨stream, hparse⟩ := hfixed []
  rw [hfields] at hparse
  obtain rfl := (Prod.mk.inj (Except.ok.inj hparse)).1
  obtain ⟨rest', hrest⟩ := hfixed s
  refine ⟨rest', ?_⟩
  rw [heq, List.append_assoc, List.cons_append, List.append_assoc]
  exact hstream _ _ hrest

/-- The stream stands behind the head, and the number of bytes that are left has been computed
correctly. -/
def ExactlyHead (s : Bytes) (n : ℕ) (rest : Bytes) : Prop :=
  rest = s.drop n ∧ s.length - n = rest.length

theorem exactlyHead_iff {s rest : Bytes} {n : ℕ} : ExactlyHead s n rest ↔ rest = s.drop n := by
  constructor
  · exact And.left
  · rintro rfl
    exact ⟨rfl, (List.length_drop).symm⟩

/-- What the header parser leaves of a head decides. -/
theorem exactlyHead_of_header {s : Bytes} {n : ℕ} (hend : endOfHead s = some n) :
    ∃ first stream, 10 ∉ first ∧ s = first ++ 10 :: stream ∧
      ∀ fields rest, HttpHeader.parse stream = .ok (fields, rest) →
        (ExactlyHead s n rest ↔ RegularHead (s.take n)) := by
  obtain ⟨first, ls, hlines, hfirst, hls, heq⟩ := lines_head hend
  refine ⟨first, _, hfirst, heq, ?_⟩
  intro fields rest hparse
  rw [exactlyHead_iff, HttpHeader.parse_rest_iff hls hparse, RegularHead, hlines, List.tail_cons,
    List.dropLast_concat]

/-- **The two ends of a head agree exactly when each of its field lines has a colon**, for requests
and for responses. -/
theorem head_consumed_iff {s : Bytes} {n : ℕ} (hend : endOfHead s = some n) :
    (∀ out out' rest, RequestMessage.parse s out = .ok (true, out', rest) →
      (ExactlyHead s n rest ↔ RegularHead (s.take n))) ∧
    (∀ out out' rest, ResponseMessage.parse s out = .ok (true, out', rest) →
      (ExactlyHead s n rest ↔ RegularHead (s.take n))) := by
  obtain ⟨first, stream, hfirst, rfl, hheader⟩ := exactlyHead_of_header hend
  refine ⟨?_, ?_⟩
  · intro out out' rest h
    obtain ⟨fields, hfields, -⟩ := RequestMessage.parse_stream hfirst h
    exact hheader fields rest hfields
  · intro out out' rest h
    obtain ⟨fields, hfields⟩ := ResponseMessage.parse_rest hfirst h
    exact hheader fields rest hfields

/-- A head with content behind it. -/
theorem head_consumed_iff_content :
    (∀ out out' rest, RequestMessage.parse
        (ascii "POST / HTTP/1.1\r\nContent-Length: 2\r\n\r\nhi") out = .ok (true, out', rest) →
      (ExactlyHead (ascii "POST / HTTP/1.1\r\nContent-Length: 2\r\n\r\nhi") 38 rest ↔
        RegularHead ((ascii "POST / HTTP/1.1\r\nContent-Length: 2\r\n\r\nhi").take 38))) ∧
    (∀ out out' rest, ResponseMessage.parse
        (ascii "POST / HTTP/1.1\r\nContent-Length: 2\r\n\r\nhi") out = .ok (true, out', rest) →
      (ExactlyHead (ascii "POST / HTTP/1.1\r\nContent-Length: 2\r\n\r\nhi") 38 rest ↔
        RegularHead ((ascii "POST / HTTP/1.1\r\nContent-Length: 2\r\n\r\nhi").take 38))) :=
  head_consumed_iff (by decide +kernel)

/-- A line without a colon in the head of a request: the field behind it is left in the buffer, where
the content should begin. -/
theorem field_left :
    endOfHead (ascii "POST / HTTP/1.1\r\nHost: a\r\noops\r\nContent-Length: 2\r\n\r\nhi") = some 53 ∧
      RequestMessage.parse
          (ascii "POST / HTTP/1.1\r\nHost: a\r\noops\r\nContent-Length: 2\r\n\r\nhi") {} =
        .ok (true, ⟨ascii "POST", ascii "/", [], ascii "1.1", [(ascii "Host", ascii "a")]⟩,
          ascii "Content-Length: 2\r\n\r\nhi") ∧
      ¬ ExactlyHead (ascii "POST / HTTP/1.1\r\nHost: a\r\noops\r\nContent-Length: 2\r\n\r\nhi") 53
        (ascii "Content-Length: 2\r\n\r\nhi") := by
  refine ⟨by decide +kernel, by decide +kernel, ?_⟩
  rintro ⟨h, -⟩
  exact absurd h (by decide +kernel)

end SimpleWeb
