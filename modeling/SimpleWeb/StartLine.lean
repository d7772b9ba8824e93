/-
**The first line of a head.**

`RequestMessage::parse` and `ResponseMessage::parse` cut the first line of a head at its spaces.  Lines
end with a line feed, and in front of that there may be a carriage return, which `HttpHeader::parse`
and `ResponseMessage::parse` look for before they leave it out.  `RequestMessage::parse` does not look:
it leaves out the last character of the version, whatever that is.  `ResponseMessage::parse`, for its
part, does not look whether the line begins with `"HTTP/"`; it takes the version from behind the first
five characters.

Main definitions:

* `SimpleWeb.IsRequestLine`, `SimpleWeb.IsStatusLine` — the grammars;
* `SimpleWeb.RequestMessage.AcceptsGrammar`, `SimpleWeb.ResponseMessage.AcceptsGrammar` — what the
  parsers should do with a line.

Main results:

* `SimpleWeb.RequestMessage.parse_reject` — every line that is no request line is rejected;
* `SimpleWeb.RequestMessage.acceptsRequestLines_iff` — **the request line that loses a character of its
  version**;
* `SimpleWeb.ResponseMessage.acceptsStatusLines_iff` — **the lines that are taken for status lines**.
-/

import SimpleWeb.Cut
import SimpleWeb.Http

set_option relaxedAutoImplicit false
set_option autoImplicit false

namespace SimpleWeb

/-- A line without the carriage return at its end, if there is one. -/
def withoutCr (line : Bytes) : Bytes := if line.getLast? = some 13 then line.dropLast else line

theorem withoutCr_append (a : Bytes) {b : Bytes} (h : b ≠ []) :
    withoutCr (a ++ b) = a ++ withoutCr b := by
  rw [withoutCr, withoutCr, List.getLast?_append_of_ne_nil a h]
  split
  · exact List.dropLast_append_of_ne_nil h
  · rfl

/-- What is left out is at most the last character. -/
theorem dropLast_eq_withoutCr (line : Bytes) :
    line.dropLast = withoutCr line ↔ line = [] ∨ line.getLast? = some 13 := by
  rw [withoutCr]
  split
  · next hcr => simp [hcr]
  · next hcr =>
      simp only [hcr, or_false]
      constructor
      · intro h
        have hlen := congrArg List.length h
        rw [List.length_dropLast] at hlen
        exact List.length_eq_zero_iff.1 (by omega)
      · rintro rfl
        rfl

/-! ### Request lines -/

/-- `line` is `method ' ' target ' ' 'HTTP/' version`. -/
structure IsRequestLine (line method target version : Bytes) : Prop where
  eq : line = method ++ 32 :: (target ++ 32 :: (ascii "HTTP/" ++ version))
  method : 32 ∉ method
  target : 32 ∉ target

/-- A line is a request line in one way only. -/
theorem IsRequestLine.unique {line method target version method' target' version' : Bytes}
    (h : IsRequestLine line method target version)
    (h' : IsRequestLine line method' target' version') :
    method = method' ∧ target = target' ∧ version = version' := by
  have hline := h.eq.symm.trans h'.eq
  obtain ⟨hmethod, hrest⟩ := @Cut.join_inj _ 32 _ _ _ (some _) (some _) h.method h'.method hline
  obtain ⟨htarget, hversion⟩ :=
    @Cut.join_inj _ 32 _ _ _ (some _) (some _) h.target h'.target (Option.some.inj hrest)
  exact ⟨hmethod, htarget, List.append_cancel_left (Option.some.inj hversion)⟩

namespace RequestMessage

/-- Without a further space the end of the target is not found. -/
theorem scanTarget_open {line before t : Bytes} {fuel i : ℕ} (ht : 32 ∉ t)
    (hline : line = before ++ t) (hi : i = before.length) (queryStart : Option ℕ) :
    ∃ q, scanTarget line fuel i queryStart = .ok (q, none) := by
  induction fuel generalizing before t i queryStart with
  | zero => exact ⟨queryStart, rfl⟩
  | succ fuel ih =>
      cases t with
      | nil =>
          refine ⟨queryStart, if_neg ?_⟩
          simp [hline, hi]
      | cons b t =>
          obtain ⟨hb, ht'⟩ : b ≠ 32 ∧ 32 ∉ t := by simpa [eq_comm] using ht
          have hlt : i < line.length := by
            rw [hline, hi]
            simp
          have hchar : charAt line i = .ok b := charAt_of_eq hline hi
          have hrec := @ih (before ++ [b]) t (i + 1) ht' (by simp [hline]) (by simp [hi])
          rw [scanTarget, if_pos hlt, hchar, ok_bind, if_neg hb]
          split
          · exact hrec _
          · exact hrec _

/-- Another protocol is rejected. -/
theorem parseProtocol_other {line before after stream : Bytes}
    (hline : line = before ++ 32 :: after) (hnot : ¬ ascii "HTTP/" <+: after)
    (out : RequestMessage) :
    parseProtocol stream line before.length out = .ok (false, out, stream) := by
  have heq : line = (before ++ [32]) ++ after := by simp [hline]
  have hpos : before.length + 1 = (before ++ [32]).length := by simp
  have hfind := find_from (before ++ [32]) after 47 hpos
  rw [← heq] at hfind
  obtain ⟨protocol, rest, hprotocol, rfl⟩ := Cut.exists_join 47 after
  cases rest with
  | none =>
      rw [Cut.join_none, find_eq_none hprotocol, Option.map_none] at hfind
      simp only [parseProtocol, hfind]
  | some rest =>
      rw [Cut.join_some, find_append hprotocol, Option.map_some] at hfind
      have hsize : sizeSub (sizeSub (protocol.length + (before.length + 1)) before.length) 1 =
          protocol.length := by
        rw [sizeSub_of_le (show before.length ≤ _ by omega), sizeSub_of_le (by omega)]
        omega
      have hsub : substr line (before.length + 1) protocol.length = .ok protocol := by
        rw [heq]
        exact substr_append _ protocol _ hpos rfl
      have hne : protocol ≠ ascii "HTTP" := by
        rintro rfl
        exact hnot ⟨rest, by simp [ascii]⟩
      simp only [parseProtocol, hfind, hsize, hsub, ok_bind, hne, ne_eq, not_false_eq_true, if_true,
        pure_eq_ok]

/-- A line with two spaces is rejected, if the protocol is another one. -/
theorem parse_otherProtocol {stream line stream' method path after : Bytes} {query : Option Bytes}
    (hline : getline stream = some (line, stream')) (hmethod : 32 ∉ method) (hmark : 63 ∉ path)
    (ht : 32 ∉ target path query) (hcut : line = method ++ 32 :: (target path query ++ 32 :: after))
    (hother : ¬ ascii "HTTP/" <+: after) (out : RequestMessage) :
    ∃ out', parse stream out = .ok (false, out', stream') := by
  obtain ⟨hend, hmethodOut, hscan⟩ := scan_line hmethod hmark ht hcut
  have hprotocol := @parseProtocol_other line (method ++ 32 :: target path query) after
    stream' (by rw [hcut]; simp) hother
  have hbefore : (method ++ 32 :: target path query).length =
      method.length + 1 + (target path query).length := by
    simp only [List.length_append, List.length_cons]
    omega
  rw [hbefore] at hprotocol
  have hlen : line.length =
      method.length + 1 + (target path query).length + 1 + after.length := by
    rw [hcut]
    simp only [List.length_append, List.length_cons]
    omega
  cases query with
  | none =>
      obtain ⟨path', hpath⟩ : ∃ path', substr line (method.length + 1)
          (sizeSub (sizeSub (method.length + 1 + (target path none).length) method.length) 1) =
            .ok path' := ⟨_, substr_of_le (by omega) _⟩
      simp only [Option.map_none] at hscan
      exact ⟨{ out with method, path := path' }, by
        simp only [parse, hline, hend, hmethodOut, hscan, hpath, hprotocol, ok_bind]⟩
  | some q =>
      have htargetLen : (target path (some q)).length = path.length + 1 + q.length := by
        simp only [target, List.length_append, List.length_cons]
        omega
      obtain ⟨path', hpath⟩ : ∃ path', substr line (method.length + 1)
          (sizeSub (sizeSub (method.length + 1 + path.length + 1) method.length) 2) =
            .ok path' := ⟨_, substr_of_le (by omega) _⟩
      obtain ⟨query', hquery⟩ : ∃ query', substr line (method.length + 1 + path.length + 1)
          (sizeSub (method.length + 1 + (target path (some q)).length)
            (method.length + 1 + path.length + 1)) = .ok query' := ⟨_, substr_of_le (by omega) _⟩
      simp only [Option.map_some] at hscan
      exact ⟨{ out with method, path := path', queryString := query' }, by
        simp only [parse, hline, hend, hmethodOut, hscan, hpath, hquery, hprotocol, ok_bind]⟩

/-- **Every line that is no request line is rejected.** -/
theorem parse_reject {stream line stream' : Bytes} (hline : getline stream = some (line, stream'))
    (hnot : ¬ ∃ method t version, IsRequestLine line method t version) (out : RequestMessage) :
    ∃ out', parse stream out = .ok (false, out', stream') := by
  obtain ⟨method, rest, hmethod, hcut⟩ := Cut.exists_join 32 line
  cases rest with
  | none =>
      obtain rfl : line = method := hcut
      exact ⟨out, by simp only [parse, hline, find_eq_none hmethod]⟩
  | some rest =>
      rw [Cut.join_some] at hcut
      obtain ⟨t, after, ht, hrest⟩ := Cut.exists_join 32 rest
      cases after with
      | none =>
          -- there is one space only
          obtain rfl : rest = t := hrest
          have hmethodOut : substr line 0 method.length = .ok method := by
            rw [hcut]
            exact substr_append [] method _ rfl rfl
          have hfind : find line 32 0 = some method.length := by
            rw [hcut]
            exact find_append hmethod _
          obtain ⟨q, hscan⟩ := @scanTarget_open line (method ++ [32]) rest line.length
            (method.length + 1) ht (by simp [hcut]) (by simp) none
          exact ⟨{ out with method }, by
            simp only [parse, hline, hfind, hmethodOut, hscan, ok_bind, pure_eq_ok]⟩
      | some after =>
          rw [hrest, Cut.join_some] at hcut
          obtain ⟨path, query, hmark, htarget⟩ := Cut.exists_join 63 t
          rw [← target_eq_join] at htarget
          have hother : ¬ ascii "HTTP/" <+: after := by
            rintro ⟨version, rfl⟩
            exact hnot ⟨method, t, version, hcut, hmethod, ht⟩
          rw [htarget] at ht hcut
          exact parse_otherProtocol hline hmethod hmark ht hcut hother out

/-- A request line is accepted, with the fields behind it; the version lacks its last character. -/
theorem parse_requestLine_fields {stream line stream' method t version rest : Bytes}
    {fields : CaseInsensitiveMultimap} (hline : getline stream = some (line, stream'))
    (h : IsRequestLine line method t version)
    (hfields : HttpHeader.parse stream' = .ok (fields, rest)) (out : RequestMessage) :
    parse stream out =
      .ok (true, ⟨method, Cut.before 63 t, (Cut.after 63 t).getD out.queryString,
        version.dropLast, fields⟩, rest) := by
  have htarget : target (Cut.before 63 t) (Cut.after 63 t) = t := by
    rw [target_eq_join, Cut.join_before_after]
  have hnot := h.target
  rw [h.eq] at hline
  rw [← htarget] at hline hnot
  exact parse_line h.method (Cut.not_mem_before t) hnot hline hfields out

theorem parse_isRequestLine {stream line stream' method t version : Bytes}
    (hline : getline stream = some (line, stream')) (h : IsRequestLine line method t version)
    (out : RequestMessage) :
    ∃ fields rest, parse stream out =
      .ok (true, ⟨method, Cut.before 63 t, (Cut.after 63 t).getD out.queryString,
        version.dropLast, fields⟩, rest) := by
  obtain ⟨fields, rest, hfields⟩ := HttpHeader.parse_ok stream'
  exact ⟨fields, rest, parse_requestLine_fields hline h hfields out⟩

/-- What the parser should do with a line: accept the request lines, and store their parts. -/
def AcceptsGrammar (stream line : Bytes) : Prop :=
  ∀ out, ∃ success out' rest, parse stream out = .ok (success, out', rest) ∧
    (success = true ↔ ∃ method t version, IsRequestLine line method t version) ∧
    ∀ method t version, IsRequestLine line method t version →
      out'.method = method ∧ out'.path = Cut.before 63 t ∧
        out'.queryString = (Cut.after 63 t).getD out.queryString ∧
        out'.version = withoutCr version

/-- **The request line that loses a character of its version** is the one that has a version and no
carriage return behind it. -/
theorem acceptsRequestLines_iff {stream line stream' : Bytes}
    (hline : getline stream = some (line, stream')) :
    AcceptsGrammar stream line ↔
      ∀ method t version, IsRequestLine line method t version →
        version = [] ∨ version.getLast? = some 13 := by
  constructor
  · intro h method t version hrequest
    obtain ⟨success, out', rest, hparse, -, hparts⟩ := h {}
    obtain ⟨-, -, -, hversion⟩ := hparts method t version hrequest
    obtain ⟨fields, rest', hparse'⟩ := parse_isRequestLine hline hrequest {}
    rw [hparse] at hparse'
    obtain ⟨-, hout⟩ := Prod.mk.inj (Except.ok.inj hparse')
    obtain ⟨rfl, -⟩ := Prod.mk.inj hout
    exact (dropLast_eq_withoutCr version).1 hversion
  · intro h out
    by_cases hrequest : ∃ method t version, IsRequestLine line method t version
    · obtain ⟨method, t, version, hrequest⟩ := hrequest
      obtain ⟨fields, rest, hparse⟩ := parse_isRequestLine hline hrequest out
      refine ⟨true, _, rest, hparse, by simpa using ⟨method, t, version, hrequest⟩, ?_⟩
      intro method' t' version' hrequest'
      obtain ⟨rfl, rfl, rfl⟩ := hrequest.unique hrequest'
      exact ⟨rfl, rfl, rfl, (dropLast_eq_withoutCr version).2 (h method t version hrequest)⟩
    · obtain ⟨out', hparse⟩ := parse_reject hline hrequest out
      refine ⟨false, out', stream', hparse, by simpa using hrequest, ?_⟩
      intro method t version hrequest'
      exact absurd ⟨method, t, version, hrequest'⟩ hrequest

/-- A request with two question marks in its target. -/
theorem acceptsRequestLines_iff_marks :
    AcceptsGrammar (ascii "GET /a?b?c HTTP/1.1\r\n\r\n") (ascii "GET /a?b?c HTTP/1.1\r") ↔
      ∀ method t version, IsRequestLine (ascii "GET /a?b?c HTTP/1.1\r") method t version →
        version = [] ∨ version.getLast? = some 13 :=
  @acceptsRequestLines_iff _ _ (ascii "\r\n") rfl

/-- A request line that is ended by a line feed alone: its version is read as `"1."`. -/
theorem version_cut :
    getline (ascii "GET / HTTP/1.1\nHost: a\r\n\r\n") =
        some (ascii "GET / HTTP/1.1", ascii "Host: a\r\n\r\n") ∧
      IsRequestLine (ascii "GET / HTTP/1.1") (ascii "GET") (ascii "/") (ascii "1.1") ∧
      parse (ascii "GET / HTTP/1.1\nHost: a\r\n\r\n") {} =
        .ok (true, ⟨ascii "GET", ascii "/", [], ascii "1.", [(ascii "Host", ascii "a")]⟩, []) ∧
      ¬ AcceptsGrammar (ascii "GET / HTTP/1.1\nHost: a\r\n\r\n") (ascii "GET / HTTP/1.1") := by
  have hrequest :
      IsRequestLine (ascii "GET / HTTP/1.1") (ascii "GET") (ascii "/") (ascii "1.1") :=
    ⟨by decide, by decide, by decide⟩
  have hparse : parse (ascii "GET / HTTP/1.1\nHost: a\r\n\r\n") {} =
      .ok (true, ⟨ascii "GET", ascii "/", [], ascii "1.", [(ascii "Host", ascii "a")]⟩, []) := by
    decide +kernel
  refine ⟨rfl, hrequest, hparse, ?_⟩
  intro h
  obtain ⟨success, out', rest, hparse', -, hparts⟩ := h {}
  obtain ⟨-, -, -, hversion⟩ := hparts _ _ _ hrequest
  rw [hparse] at hparse'
  obtain ⟨-, hout⟩ := Prod.mk.inj (Except.ok.inj hparse')
  obtain ⟨rfl, -⟩ := Prod.mk.inj hout
  exact absurd hversion (by decide)

end RequestMessage

/-! ### Status lines -/

/-- `line` is `'HTTP/' version ' ' statusCode`. -/
structure IsStatusLine (line version statusCode : Bytes) : Prop where
  eq : line = ascii "HTTP/" ++ (version ++ 32 :: statusCode)
  version : 32 ∉ version

namespace ResponseMessage

/-- A line with something behind its first space, and long enough, is accepted, whatever it begins
with. -/
theorem parse_accept {stream line stream' word rest : Bytes}
    (hline : getline stream = some (line, stream')) (hcut : line = word ++ 32 :: rest)
    (hword : 32 ∉ word) (hrest : rest ≠ []) (hlong : 5 < line.length) (out : ResponseMessage) :
    ∃ fields stream'', parse stream out =
      .ok (true, ⟨(line.drop 5).take (sizeSub word.length 5), withoutCr rest, fields⟩, stream'') := by
  obtain ⟨fields, stream'', hfields⟩ := HttpHeader.parse_ok stream'
  have hfind : find line 32 0 = some word.length := by
    rw [hcut]
    exact find_append hword rest
  have hlen : line.length = word.length + 1 + rest.length := by
    rw [hcut]
    simp only [List.length_append, List.length_cons]
    omega
  have hpos := List.length_pos_iff.2 hrest
  have hmore : word.length + 1 < line.length := by omega
  have hback : back line = .ok (rest.getLast hrest) := by
    rw [hcut, back, List.append_cons, List.getLast?_append_of_ne_nil _ hrest,
      List.getLast?_eq_getLast_of_ne_nil hrest]
  have hversion := @substr_of_le line 5 hlong.le (sizeSub word.length 5)
  have hstatus : substr line (word.length + 1)
      (sizeSub (sizeSub line.length (word.length + 1))
        (if rest.getLast hrest = 13 then 1 else 0)) = .ok (withoutCr rest) := by
    have hdrop : line.drop (word.length + 1) = rest := by
      rw [hcut, List.append_cons]
      exact List.drop_left' (by simp)
    have hinner : sizeSub line.length (word.length + 1) = rest.length := by
      rw [sizeSub_of_le hmore.le]
      omega
    rw [substr_of_le hmore.le, hdrop, hinner, withoutCr, List.getLast?_eq_getLast_of_ne_nil hrest]
    split
    · next hcr => rw [if_pos (congrArg some hcr), sizeSub_of_le (by omega), List.dropLast_eq_take]
    · next hcr =>
        rw [if_neg fun h => hcr (Option.some.inj h), sizeSub_of_le (by omega), Nat.sub_zero,
          List.take_length]
  refine ⟨fields, stream'', ?_⟩
  simp only [parse, hline, hfind, if_pos hlong, hversion, if_pos hmore, hback, hstatus, hfields,
    ok_bind, pure_eq_ok]

/-- What the parser should do with a line: accept only status lines, and store their parts. -/
def AcceptsGrammar (stream line : Bytes) : Prop :=
  ∀ out out' rest, parse stream out = .ok (true, out', rest) →
    IsStatusLine (withoutCr line) out'.version out'.statusCode

/-- **The lines that are taken for status lines**: apart from those that begin with `"HTTP/"`, the
lines of more than five characters with something behind their first space. -/
theorem acceptsStatusLines_iff {stream line stream' : Bytes}
    (hline : getline stream = some (line, stream')) :
    AcceptsGrammar stream line ↔
      ∀ word rest, line = word ++ 32 :: rest → 32 ∉ word → rest ≠ [] → 5 < line.length →
        ascii "HTTP/" <+: line := by
  have hhttp : (ascii "HTTP/").length = 5 := rfl
  constructor
  · intro h word rest hcut hword hrest hlong
    obtain ⟨fields, stream'', hparse⟩ := parse_accept hline hcut hword hrest hlong {}
    have hstatus := h _ _ _ hparse
    have hcr : withoutCr line <+: line := by
      rw [withoutCr]
      split
      · exact List.dropLast_prefix line
      · exact List.prefix_refl line
    rw [hstatus.eq] at hcr
    exact (List.prefix_append _ _).trans hcr
  · intro h out out' rest' hparse
    obtain ⟨word, rest, hword, hcut⟩ := Cut.exists_join 32 line
    cases rest with
    | none =>
        obtain rfl : line = word := hcut
        simp [parse, hline, find_eq_none hword] at hparse
    | some rest =>
        rw [Cut.join_some] at hcut
        have hfind : find line 32 0 = some word.length := by
          rw [hcut]
          exact find_append hword rest
        have hlong : 5 < line.length := by
          by_contra hshort
          simp [parse, hline, hfind, hshort] at hparse
        have hrest : rest ≠ [] := by
          rintro rfl
          have hversion := @substr_of_le line 5 hlong.le (sizeSub word.length 5)
          have hshort : ¬ word.length + 1 < line.length := by simp [hcut]
          simp [parse, hline, hfind, hlong, hversion, hshort] at hparse
        obtain ⟨fields, stream'', haccept⟩ := parse_accept hline hcut hword hrest hlong out
        rw [hparse] at haccept
        obtain ⟨-, hout⟩ := Prod.mk.inj (Except.ok.inj haccept)
        obtain ⟨rfl, -⟩ := Prod.mk.inj hout
        -- the first word begins with `"HTTP/"`, since that has no space
        have hprefix := h word rest hcut hword hrest hlong
        rw [hcut] at hprefix
        obtain ⟨version, rfl⟩ := Cut.prefix_before (by decide) hprefix
        have hversion : 32 ∉ version := fun hmem => hword (List.mem_append_right _ hmem)
        have htake : (line.drop 5).take (sizeSub (ascii "HTTP/" ++ version).length 5) = version := by
          rw [List.length_append, hhttp, sizeSub_of_le (by omega), Nat.add_sub_cancel_left, hcut,
            List.append_assoc, List.drop_left' hhttp, List.take_left]
        have hwithout : withoutCr line = ascii "HTTP/" ++ (version ++ 32 :: withoutCr rest) := by
          have hfull : line = ascii "HTTP/" ++ version ++ [32] ++ rest := by
            rw [hcut]
            simp
          rw [hfull, withoutCr_append _ hrest]
          simp
        exact ⟨by rw [hwithout, htake], by rw [htake]; exact hversion⟩

/-- A proper status line, ended by a line feed alone. -/
theorem acceptsStatusLines_iff_switching :
    AcceptsGrammar (ascii "HTTP/1.1 101 Switching Protocols\n\r\n\r\n")
        (ascii "HTTP/1.1 101 Switching Protocols") ↔
      ∀ word rest, ascii "HTTP/1.1 101 Switching Protocols" = word ++ 32 :: rest → 32 ∉ word →
        rest ≠ [] → 5 < (ascii "HTTP/1.1 101 Switching Protocols").length →
          ascii "HTTP/" <+: ascii "HTTP/1.1 101 Switching Protocols" :=
  @acceptsStatusLines_iff _ _ (ascii "\r\n\r\n") rfl

/-- A line that begins otherwise: it is accepted, and its version is taken from the status code. -/
theorem version_from_status :
    getline (ascii "ICY 101 OK\r\n\r\n") = some (ascii "ICY 101 OK\r", ascii "\r\n") ∧
      parse (ascii "ICY 101 OK\r\n\r\n") {} =
        .ok (true, ⟨ascii "01 OK\r", ascii "101 OK", []⟩, []) ∧
      ¬ AcceptsGrammar (ascii "ICY 101 OK\r\n\r\n") (ascii "ICY 101 OK\r") := by
  have hparse : parse (ascii "ICY 101 OK\r\n\r\n") {} =
      .ok (true, ⟨ascii "01 OK\r", ascii "101 OK", []⟩, []) := by decide +kernel
  refine ⟨rfl, hparse, ?_⟩
  intro h
  exact absurd (h _ _ _ hparse).version (by decide)

end ResponseMessage

end SimpleWeb
