/-
**Request and response heads.**

A model of `HttpHeader::parse`, `RequestMessage::parse` and `ResponseMessage::parse` of
`common/utility.hpp`, and of the delimiter that `async_read_until` looks for.  A parser takes lines
from the front of the stream; what it leaves there is part of its result, next to its verdict and to
what it has stored in its out parameters.  The parsers are `noexcept`: a fault ends the process.

Main definitions:

* `SimpleWeb.HttpHeader.parse`, `SimpleWeb.RequestMessage.parse`,
  `SimpleWeb.ResponseMessage.parse` — the parsers;
* `SimpleWeb.endOfHead` — where `async_read_until` stops;
* `SimpleWeb.lines` — a stream as the list of its lines.

Main results:

* `SimpleWeb.HttpHeader.parse_lines` — **the header parser reads up to a line without a colon**;
* `SimpleWeb.HttpHeader.parse_fields` — it reads back fields that are written one on a line;
* `SimpleWeb.ResponseMessage.parse_ok` — parsing a response never faults.
-/

import SimpleWeb.Strings

set_option relaxedAutoImplicit false
set_option autoImplicit false

namespace SimpleWeb

def crlf : Bytes := [13, 10]

/-! ### Header fields -/

namespace HttpHeader

/-- The spaces in front of a value are skipped; the fuel is the size of the line. -/
def skipSpaces (line : Bytes) : ℕ → ℕ → Except Fault ℕ
  | 0, valueStart => .ok valueStart
  | fuel + 1, valueStart =>
      if valueStart + 1 < line.length then do
        let c ← charAt line valueStart
        if c = 32 then skipSpaces line fuel (valueStart + 1) else return valueStart
      else .ok valueStart

/-- The body of the loop, for a line whose name ends at `paramEnd`. -/
def parseLine (line : Bytes) (paramEnd : ℕ) (result : CaseInsensitiveMultimap) :
    Except Fault CaseInsensitiveMultimap := do
  let valueStart ← skipSpaces line line.length (paramEnd + 1)
  if valueStart < line.length then
    let name ← substr line 0 paramEnd
    let last ← back line
    let value ← substr line valueStart
      (sizeSub (sizeSub line.length valueStart) (if last = 13 then 1 else 0))
    return emplace result name value
  else return result

/-- The loop over the lines.  Each line makes the stream shorter, which bounds the fuel. -/
def parseLines : ℕ → Bytes → CaseInsensitiveMultimap →
    Except Fault (CaseInsensitiveMultimap × Bytes)
  | 0, stream, result => .ok (result, stream)
  | fuel + 1, stream, result =>
      match getline stream with
      | none => .ok (result, stream)
      | some (line, stream) =>
          match find line 58 0 with
          | none => .ok (result, stream)
          | some paramEnd => do
              let result ← parseLine line paramEnd result
              parseLines fuel stream result

/-- `HttpHeader::parse`: the fields, and what is left of the stream. -/
def parse (stream : Bytes) : Except Fault (CaseInsensitiveMultimap × Bytes) :=
  parseLines stream.length stream []

/-- The field that a line holds, if any. -/
def fieldOf (line : Bytes) : CaseInsensitiveMultimap :=
  match find line 58 0 with
  | none => []
  | some paramEnd => (parseLine line paramEnd []).toOption.getD []

/-- A field is plain if it can be written on a line of its own and read back. -/
structure Plain (f : Bytes × Bytes) : Prop where
  colon_name : 58 ∉ f.1
  cr_name : 13 ∉ f.1
  lf_name : 10 ∉ f.1
  cr_value : 13 ∉ f.2
  lf_value : 10 ∉ f.2
  space_value : f.2.head? ≠ some 32

instance : DecidablePred Plain := fun f =>
  decidable_of_iff
    (58 ∉ f.1 ∧ 13 ∉ f.1 ∧ 10 ∉ f.1 ∧ 13 ∉ f.2 ∧ 10 ∉ f.2 ∧ f.2.head? ≠ some 32)
    ⟨fun ⟨h₁, h₂, h₃, h₄, h₅, h₆⟩ => ⟨h₁, h₂, h₃, h₄, h₅, h₆⟩,
      fun ⟨h₁, h₂, h₃, h₄, h₅, h₆⟩ => ⟨h₁, h₂, h₃, h₄, h₅, h₆⟩⟩

/-- A field as it is written, up to the line feed. -/
def fieldLine (f : Bytes × Bytes) : Bytes := f.1 ++ ascii ": " ++ f.2 ++ [13]

/-! #### One line -/

theorem skipSpaces_ok (line : Bytes) (fuel : ℕ) {valueStart : ℕ} (h : valueStart ≤ line.length) :
    ∃ v, skipSpaces line fuel valueStart = .ok v ∧ valueStart ≤ v ∧ v ≤ line.length := by
  induction fuel generalizing valueStart with
  | zero => exact ⟨valueStart, rfl, le_rfl, h⟩
  | succ fuel ih =>
      by_cases hnext : valueStart + 1 < line.length
      · obtain ⟨c, hc⟩ := @exists_charAt line valueStart (by omega)
        by_cases hspace : c = 32
        · obtain ⟨v, hv, hle, hlen⟩ := @ih (valueStart + 1) hnext.le
          refine ⟨v, ?_, by omega, hlen⟩
          simpa [skipSpaces, hnext, hc, hspace] using hv
        · refine ⟨valueStart, ?_, le_rfl, h⟩
          simp [skipSpaces, hnext, hc, hspace]
      · exact ⟨valueStart, by simp [skipSpaces, hnext], le_rfl, h⟩

/-- The size of the line is enough fuel. -/
theorem skipSpaces_fuel_stable (line : Bytes) {fuel valueStart : ℕ}
    (h : line.length ≤ valueStart + fuel) (extra : ℕ) :
    skipSpaces line (fuel + extra) valueStart = skipSpaces line fuel valueStart := by
  induction fuel generalizing valueStart with
  | zero =>
      cases extra with
      | zero => rfl
      | succ extra => exact if_neg (by omega)
  | succ fuel ih =>
      have hrec := @ih (valueStart + 1) (by omega)
      rw [Nat.add_right_comm]
      simp only [skipSpaces, hrec]

/-- What a line adds does not depend on the fields before it, and no line faults. -/
theorem parseLine_eq {line : Bytes} {paramEnd : ℕ} (h : find line 58 0 = some paramEnd)
    (result : CaseInsensitiveMultimap) :
    parseLine line paramEnd result = .ok (result ++ fieldOf line) := by
  obtain ⟨-, hlt⟩ := find_lt h
  obtain ⟨v, hskip, hge, hle⟩ := @skipSpaces_ok line line.length (paramEnd + 1) hlt
  by_cases hv : v < line.length
  · have hname := @substr_of_le line 0 (by omega) paramEnd
    obtain ⟨last, hlast⟩ := @exists_back line (by rintro rfl; simp at hv)
    have hvalue := @substr_of_le line v hle
      (sizeSub (sizeSub line.length v) (if last = 13 then 1 else 0))
    simp [fieldOf, h, parseLine, hskip, hv, hname, hlast, hvalue, emplace, Except.toOption]
  · simp [fieldOf, h, parseLine, hskip, hv, Except.toOption]

theorem find_fieldLine {f : Bytes × Bytes} (h : Plain f) :
    find (fieldLine f) 58 0 = some f.1.length := by
  have heq : fieldLine f = f.1 ++ 58 :: (32 :: f.2 ++ [13]) := by simp [fieldLine, ascii]
  rw [heq]
  exact find_append h.colon_name _

/-- The one space that is written in front of a plain value is skipped, and nothing of the value. -/
theorem skipSpaces_fieldLine {f : Bytes × Bytes} (h : Plain f) :
    skipSpaces (fieldLine f) (fieldLine f).length (f.1.length + 1) = .ok (f.1.length + 2) := by
  obtain ⟨name, value⟩ := f
  have heq : fieldLine (name, value) = name ++ 58 :: 32 :: (value ++ [13]) := by
    simp [fieldLine, ascii]
  have hlen : (fieldLine (name, value)).length = name.length + value.length + 1 + 1 + 1 := by
    rw [heq]
    simp only [List.length_append, List.length_cons, List.length_nil]
    omega
  have hspace : charAt (fieldLine (name, value)) (name.length + 1) = .ok 32 := by
    rw [heq, List.append_cons]
    exact charAt_append _ _ _ (by simp)
  show skipSpaces _ _ (name.length + 1) = .ok (name.length + 2)
  rw [hlen, skipSpaces, if_pos (by omega), hspace]
  simp only [if_pos, ok_bind]
  rw [skipSpaces]
  cases value with
  | nil =>
      rw [if_neg (by rw [hlen]; simp)]
  | cons b value =>
      have hb : b ≠ 32 := fun hb => h.space_value (by simp [hb])
      have hchar : charAt (fieldLine (name, b :: value)) (name.length + 2) = .ok b := by
        rw [heq, List.append_cons, List.append_cons]
        exact charAt_append _ _ _ (by simp)
      rw [if_pos (by rw [hlen]; simp only [List.length_cons]; omega), hchar]
      simp only [if_neg hb, ok_bind]
      rfl

/-- A plain field is read back from its line. -/
theorem fieldOf_fieldLine {f : Bytes × Bytes} (h : Plain f) : fieldOf (fieldLine f) = [f] := by
  have hskip := skipSpaces_fieldLine h
  have hfind := find_fieldLine h
  obtain ⟨name, value⟩ := f
  have heq : fieldLine (name, value) = (name ++ [58, 32]) ++ (value ++ [13]) := by
    simp [fieldLine, ascii]
  have hlen : (fieldLine (name, value)).length = name.length + 2 + (value.length + 1) := by
    rw [heq]
    simp only [List.length_append, List.length_cons, List.length_nil]
  have hname : substr (fieldLine (name, value)) 0 name.length = .ok name := by
    rw [heq, List.append_assoc]
    exact substr_append [] name _ rfl rfl
  have hback : back (fieldLine (name, value)) = .ok 13 := by
    rw [heq, ← List.append_assoc]
    exact back_append _ 13
  have hsize : sizeSub (sizeSub (fieldLine (name, value)).length (name.length + 2)) 1 =
      value.length := by
    rw [sizeSub_of_le (show name.length + 2 ≤ (fieldLine (name, value)).length by omega),
      sizeSub_of_le (by omega)]
    omega
  have hvalue : substr (fieldLine (name, value)) (name.length + 2) value.length = .ok value := by
    rw [heq]
    exact substr_append _ value [13] (by simp) rfl
  have hlt : name.length + 2 < (fieldLine (name, value)).length := by omega
  simp only [fieldOf, hfind, parseLine, hskip, if_pos hlt, hname, hback, if_pos, hsize, hvalue,
    ok_bind]
  rfl

/-! #### All lines -/

/-- The lines, each with its line feed. -/
def unlines (ls : List Bytes) : Bytes := (ls.map (· ++ [10])).flatten

theorem unlines_cons (l : Bytes) (ls : List Bytes) (rest : Bytes) :
    unlines (l :: ls) ++ rest = l ++ 10 :: (unlines ls ++ rest) := by
  simp [unlines]

theorem length_le_unlines (ls : List Bytes) : ls.length ≤ (unlines ls).length := by
  induction ls with
  | nil => simp [unlines]
  | cons l ls ih =>
      have h := congrArg List.length (unlines_cons l ls [])
      simp only [List.append_nil, List.length_append, List.length_cons] at h ⊢
      omega

theorem parseLines_ok (fuel : ℕ) (stream : Bytes) (result : CaseInsensitiveMultimap) :
    ∃ fields rest, parseLines fuel stream result = .ok (fields, rest) := by
  induction fuel generalizing stream result with
  | zero => exact ⟨result, stream, rfl⟩
  | succ fuel ih =>
      cases hline : getline stream with
      | none => exact ⟨result, stream, by simp only [parseLines, hline]⟩
      | some p =>
          obtain ⟨line, stream'⟩ := p
          cases hfind : find line 58 0 with
          | none => exact ⟨result, stream', by simp only [parseLines, hline, hfind]⟩
          | some paramEnd =>
              obtain ⟨fields, rest, h⟩ := ih stream' (result ++ fieldOf line)
              refine ⟨fields, rest, ?_⟩
              simp only [parseLines, hline, hfind, parseLine_eq hfind, h, ok_bind]

/-- The size of the stream is enough fuel. -/
theorem parseLines_fuel_stable {fuel : ℕ} {stream : Bytes} (h : stream.length ≤ fuel) (extra : ℕ)
    (result : CaseInsensitiveMultimap) :
    parseLines (fuel + extra) stream result = parseLines fuel stream result := by
  induction fuel generalizing stream result with
  | zero =>
      obtain rfl : stream = [] := List.length_eq_zero_iff.1 (by omega)
      cases extra with
      | zero => rfl
      | succ extra => rfl
  | succ fuel ih =>
      rw [Nat.add_right_comm]
      cases hline : getline stream with
      | none => simp only [parseLines, hline]
      | some p =>
          obtain ⟨line, stream'⟩ := p
          have hshorter := length_of_getline hline
          have hrec := @ih stream' (by omega)
          cases hfind : find line 58 0 with
          | none => simp only [parseLines, hline, hfind]
          | some paramEnd => simp only [parseLines, hline, hfind, hrec]

/-- No stream makes the header parser fault. -/
theorem parse_ok (stream : Bytes) : ∃ fields rest, parse stream = .ok (fields, rest) :=
  parseLines_ok _ _ _

theorem length_parseLines {fuel : ℕ} {stream rest : Bytes}
    {result fields : CaseInsensitiveMultimap}
    (h : parseLines fuel stream result = .ok (fields, rest)) : rest.length ≤ stream.length := by
  induction fuel generalizing stream result with
  | zero =>
      obtain ⟨-, rfl⟩ := Prod.mk.inj (Except.ok.inj h)
      exact le_rfl
  | succ fuel ih =>
      rw [parseLines] at h
      cases hline : getline stream with
      | none =>
          rw [hline] at h
          obtain ⟨-, rfl⟩ := Prod.mk.inj (Except.ok.inj h)
          exact le_rfl
      | some p =>
          obtain ⟨line, stream'⟩ := p
          have hshorter := length_of_getline hline
          rw [hline] at h
          cases hfind : find line 58 0 with
          | none =>
              simp only [hfind] at h
              obtain ⟨-, rfl⟩ := Prod.mk.inj (Except.ok.inj h)
              omega
          | some paramEnd =>
              simp only [hfind, parseLine_eq hfind, ok_bind] at h
              have hrest := ih h
              omega

/-- The header parser only takes from the front of the stream. -/
theorem length_parse {stream rest : Bytes} {fields : CaseInsensitiveMultimap}
    (h : parse stream = .ok (fields, rest)) : rest.length ≤ stream.length :=
  length_parseLines h

theorem parseLines_lines {ls : List Bytes} (hls : ∀ l ∈ ls, 10 ∉ l ∧ 58 ∈ l) {last : Bytes}
    (hlast : 10 ∉ last ∧ 58 ∉ last) (rest : Bytes) {fuel : ℕ} (hfuel : ls.length < fuel)
    (result : CaseInsensitiveMultimap) :
    parseLines fuel (unlines ls ++ (last ++ 10 :: rest)) result =
      .ok (result ++ ls.flatMap fieldOf, rest) := by
  induction ls generalizing fuel result with
  | nil =>
      cases fuel with
      | zero => simp at hfuel
      | succ fuel =>
          simp [parseLines, unlines, getline_append hlast.1, find_eq_none hlast.2]
  | cons l ls ih =>
      cases fuel with
      | zero => simp at hfuel
      | succ fuel =>
          obtain ⟨hlf, hcolon⟩ := hls l (by simp)
          obtain ⟨paramEnd, hfind⟩ := exists_find hcolon
          have hrec := @ih (fun x hx => hls x (List.mem_cons_of_mem _ hx)) fuel
            (by simpa using hfuel) (result ++ fieldOf l)
          rw [unlines_cons]
          simp only [parseLines, getline_append hlf, hfind, parseLine_eq hfind, ok_bind, hrec,
            List.flatMap_cons, List.append_assoc]

/-- **The header parser reads up to a line without a colon**, that line included. -/
theorem parse_lines {ls : List Bytes} (hls : ∀ l ∈ ls, 10 ∉ l ∧ 58 ∈ l) {last : Bytes}
    (hlast : 10 ∉ last ∧ 58 ∉ last) (rest : Bytes) :
    parse (unlines ls ++ (last ++ 10 :: rest)) = .ok (ls.flatMap fieldOf, rest) := by
  have hlen := length_le_unlines ls
  rw [parse, parseLines_lines hls hlast rest (by simp; omega), List.nil_append]

/-- The lines of fields, and the empty line behind them. -/
def fieldLines (fields : CaseInsensitiveMultimap) : Bytes := unlines (fields.map fieldLine) ++ crlf

/-- **Plain fields that are written one on a line are read back.** -/
theorem parse_fields {fields : CaseInsensitiveMultimap} (h : ∀ f ∈ fields, Plain f) (rest : Bytes) :
    parse (fieldLines fields ++ rest) = .ok (fields, rest) := by
  have hls : ∀ l ∈ fields.map fieldLine, 10 ∉ l ∧ 58 ∈ l := by
    intro l hl
    obtain ⟨f, hf, rfl⟩ := List.mem_map.1 hl
    simp [fieldLine, ascii, (h f hf).lf_name, (h f hf).lf_value]
  have hflat : (fields.map fieldLine).flatMap fieldOf = fields := by
    rw [List.flatMap_map, List.flatMap_congr fun f hf => fieldOf_fieldLine (h f hf)]
    exact List.flatMap_singleton' fields
  have heq : fieldLines fields ++ rest = unlines (fields.map fieldLine) ++ ([13] ++ 10 :: rest) := by
    simp [fieldLines, crlf]
  rw [heq, parse_lines hls (by decide), hflat]

end HttpHeader

/-! ### Requests and responses -/

/-- The out parameters of `RequestMessage::parse`. -/
structure RequestMessage where
  method : Bytes := []
  path : Bytes := []
  queryString : Bytes := []
  version : Bytes := []
  header : CaseInsensitiveMultimap := []
  deriving DecidableEq, Repr

namespace RequestMessage

/-- The loop over the characters from `i` on: where the query starts, and the space behind the
request target. -/
def scanTarget (line : Bytes) : ℕ → ℕ → Option ℕ → Except Fault (Option ℕ × Option ℕ)
  | 0, _, queryStart => .ok (queryStart, none)
  | fuel + 1, i, queryStart =>
      if i < line.length then do
        let c ← charAt line i
        if c = 63 ∧ i + 1 < line.length ∧ queryStart = none then
          scanTarget line fuel (i + 1) (some (i + 1))
        else if c = 32 then return (queryStart, some i)
        else scanTarget line fuel (i + 1) queryStart
      else .ok (queryStart, none)

/-- The protocol and version, from behind the request target on, and the header fields. -/
def parseProtocol (stream line : Bytes) (pathAndQueryStringEnd : ℕ) (out : RequestMessage) :
    Except Fault (Bool × RequestMessage × Bytes) :=
  match find line 47 (pathAndQueryStringEnd + 1) with
  | none => .ok (false, out, stream)
  | some protocolEnd => do
      let protocol ← substr line (pathAndQueryStringEnd + 1)
        (sizeSub (sizeSub protocolEnd pathAndQueryStringEnd) 1)
      if protocol ≠ ascii "HTTP" then return (false, out, stream)
      else
        let version ← substr line (protocolEnd + 1) (sizeSub (sizeSub line.length protocolEnd) 2)
        let (header, stream) ← HttpHeader.parse stream
        return (true, { out with version, header }, stream)

/-- `RequestMessage::parse`: the verdict, the out parameters, and what is left of the stream. -/
def parse (stream : Bytes) (out : RequestMessage) : Except Fault (Bool × RequestMessage × Bytes) :=
  match getline stream with
  | none => .ok (false, out, stream)
  | some (line, stream) =>
      match find line 32 0 with
      | none => .ok (false, out, stream)
      | some methodEnd => do
          let method ← substr line 0 methodEnd
          let out := { out with method }
          let (queryStart, pathAndQueryStringEnd) ←
            scanTarget line line.length (methodEnd + 1) none
          match pathAndQueryStringEnd, queryStart with
          | none, _ => return (false, out, stream)
          | some pathEnd, some queryStart =>
              let path ← substr line (methodEnd + 1) (sizeSub (sizeSub queryStart methodEnd) 2)
              let queryString ← substr line queryStart (sizeSub pathEnd queryStart)
              parseProtocol stream line pathEnd { out with path, queryString }
          | some pathEnd, none =>
              let path ← substr line (methodEnd + 1) (sizeSub (sizeSub pathEnd methodEnd) 1)
              parseProtocol stream line pathEnd { out with path }

/-- A request target: the path, and the query if there is one. -/
def target (path : Bytes) : Option Bytes → Bytes
  | none => path
  | some query => path ++ 63 :: query

/-- A request target up to its first question mark. -/
def pathOf (t : Bytes) : Bytes := t.takeWhile (· ≠ 63)

/-- What is behind the first question mark of a request target. -/
def queryOf (t : Bytes) : Bytes := (t.dropWhile (· ≠ 63)).drop 1

theorem target_eq_join (path : Bytes) (query : Option Bytes) :
    target path query = Cut.join 63 path query := by
  cases query with
  | none => rfl
  | some query => rfl

/-- Every string is a request target. -/
theorem exists_target (t : Bytes) :
    63 ∉ pathOf t ∧ ∃ query, t = target (pathOf t) query ∧ query.getD [] = queryOf t := by
  refine ⟨Cut.not_mem_before t, Cut.after 63 t, ?_, Cut.getD_after t⟩
  rw [target_eq_join]
  exact (Cut.join_before_after t).symm

/-- The size of the line is enough fuel. -/
theorem scanTarget_fuel_stable (line : Bytes) {fuel i : ℕ} (h : line.length ≤ i + fuel) (extra : ℕ)
    (queryStart : Option ℕ) :
    scanTarget line (fuel + extra) i queryStart = scanTarget line fuel i queryStart := by
  induction fuel generalizing i queryStart with
  | zero =>
      cases extra with
      | zero => rfl
      | succ extra => exact if_neg (by omega)
  | succ fuel ih =>
      have hrec := @ih (i + 1) (by omega)
      rw [Nat.add_right_comm]
      simp only [scanTarget, hrec]

section scan

variable {line before after : Bytes} {fuel i : ℕ}

/-- Behind the first question mark, only the space is looked for. -/
theorem scanTarget_query {t : Bytes} (ht : 32 ∉ t) (hline : line = before ++ (t ++ 32 :: after))
    (hi : i = before.length) (hfuel : t.length < fuel) (q : ℕ) :
    scanTarget line fuel i (some q) = .ok (some q, some (i + t.length)) := by
  induction t generalizing before fuel i with
  | nil =>
      cases fuel with
      | zero => simp at hfuel
      | succ fuel =>
          have hchar : charAt line i = .ok 32 := charAt_of_eq hline hi
          have hlt : i < line.length := by
            rw [hline, hi]
            simp
          simp [scanTarget, hlt, hchar]
  | cons b t ih =>
      cases fuel with
      | zero => simp at hfuel
      | succ fuel =>
          obtain ⟨hb, ht'⟩ : b ≠ 32 ∧ 32 ∉ t := by simpa [eq_comm] using ht
          have hchar : charAt line i = .ok b := charAt_of_eq hline hi
          have hlt : i < line.length := by
            rw [hline, hi]
            simp
          have hrec := @ih (before ++ [b]) fuel (i + 1) ht' (by simp [hline]) (by simp [hi])
            (by simpa using hfuel)
          rw [scanTarget, if_pos hlt, hchar]
          simp only [reduceCtorEq, and_false, if_false, if_neg hb, hrec, List.length_cons,
            ok_bind]
          rw [Nat.add_assoc, Nat.add_comm 1]

/-- The first question mark, and the space behind the target. -/
theorem scanTarget_target {path : Bytes} {query : Option Bytes} (hmark : 63 ∉ path)
    (ht : 32 ∉ target path query) (hline : line = before ++ (target path query ++ 32 :: after))
    (hi : i = before.length) (hfuel : (target path query).length < fuel) :
    scanTarget line fuel i none =
      .ok (query.map fun _ => i + path.length + 1, some (i + (target path query).length)) := by
  induction path generalizing before fuel i with
  | nil =>
      cases query with
      | none =>
          cases fuel with
          | zero => simp [target] at hfuel
          | succ fuel =>
              have hchar : charAt line i = .ok 32 := charAt_of_eq hline hi
              have hlt : i < line.length := by
                rw [hline, hi]
                simp [target]
              simp [scanTarget, hlt, hchar, target]
      | some q =>
          cases fuel with
          | zero => simp [target] at hfuel
          | succ fuel =>
              have hq : 32 ∉ q := by simpa [target] using ht
              have hline' : line = before ++ 63 :: (q ++ 32 :: after) := by simpa [target] using hline
              have hchar : charAt line i = .ok 63 := charAt_of_eq hline' hi
              have hlen : i + 1 < line.length := by
                rw [hline', hi]
                simp only [List.length_append, List.length_cons]
                omega
              have hrec := @scanTarget_query line (before ++ [63]) after fuel (i + 1) q hq
                (by simp [hline']) (by simp [hi]) (by simpa [target] using hfuel) (i + 1)
              rw [scanTarget, if_pos (by omega), hchar]
              simp only [hlen, and_self, if_true, hrec, Option.map_some, target, List.nil_append,
                List.length_cons, List.length_nil, Nat.add_zero, ok_bind]
              rw [Nat.add_assoc, Nat.add_comm 1]
  | cons b path ih =>
      cases fuel with
      | zero => simp at hfuel
      | succ fuel =>
          have hcons : target (b :: path) query = b :: target path query := by
            cases query <;> rfl
          rw [hcons] at ht hline hfuel ⊢
          obtain ⟨hb, ht'⟩ : b ≠ 32 ∧ 32 ∉ target path query := by simpa [eq_comm] using ht
          obtain ⟨hb', hmark'⟩ : b ≠ 63 ∧ 63 ∉ path := by simpa [eq_comm] using hmark
          have hchar : charAt line i = .ok b := charAt_of_eq hline hi
          have hlt : i < line.length := by
            rw [hline, hi]
            simp
          have hrec := @ih (before ++ [b]) fuel (i + 1) hmark' ht' (by simp [hline]) (by simp [hi])
            (by simpa using hfuel)
          rw [scanTarget, if_pos hlt, hchar]
          simp only [hb', false_and, if_false, if_neg hb, hrec, List.length_cons, ok_bind]
          congr 3
          · funext _
            omega
          · omega

end scan

/-- The protocol behind a target, and the version, of which the last character is left out. -/
theorem parseProtocol_http {line before version stream rest : Bytes}
    {fields : CaseInsensitiveMultimap}
    (hline : line = before ++ 32 :: (ascii "HTTP/" ++ version))
    (hfields : HttpHeader.parse stream = .ok (fields, rest)) (out : RequestMessage) :
    parseProtocol stream line before.length out =
      .ok (true, { out with version := version.dropLast, header := fields }, rest) := by
  have heq : line = (before ++ [32]) ++ (ascii "HTTP" ++ 47 :: version) := by
    rw [hline]
    simp [ascii]
  have heq' : line = (before ++ [32] ++ ascii "HTTP" ++ [47]) ++ version := by
    rw [heq]
    simp
  have hpos : before.length + 1 = (before ++ [32]).length := by simp
  have hhttp : (ascii "HTTP").length = 4 := rfl
  have hpos' : before.length + 5 + 1 = (before ++ [32] ++ ascii "HTTP" ++ [47]).length := by
    simp only [List.length_append, List.length_singleton, hhttp]
  have hlen : line.length = before.length + 5 + 1 + version.length := by
    rw [heq', List.length_append, ← hpos']
  have hfind : find line 47 (before.length + 1) = some (before.length + 5) := by
    rw [heq, find_from _ _ _ hpos, find_append (by decide)]
    simp only [Option.map_some, Option.some.injEq, hhttp]
    omega
  have hprotocolSize : sizeSub (sizeSub (before.length + 5) before.length) 1 = 4 := by
    rw [sizeSub_of_le (show before.length ≤ before.length + 5 by omega), Nat.add_sub_cancel_left]
    rfl
  have hprotocol : substr line (before.length + 1) 4 = .ok (ascii "HTTP") := by
    rw [heq]
    exact substr_append _ (ascii "HTTP") _ hpos rfl
  have hversion : ∀ n, substr line (before.length + 5 + 1) n = .ok (version.take n) := by
    intro n
    rw [hpos', substr_of_le (by rw [heq']; simp), heq', List.drop_left]
  have htake : version.take (sizeSub (sizeSub line.length (before.length + 5)) 2) =
      version.dropLast := by
    have hinner : sizeSub line.length (before.length + 5) = version.length + 1 := by
      rw [hlen, sizeSub_of_le (by omega)]
      omega
    rw [hinner, List.dropLast_eq_take]
    cases version with
    | nil => simp
    | cons b version =>
        rw [sizeSub_of_le (by simp)]
        simp
  simp only [parseProtocol, hfind, hprotocolSize, hprotocol, ne_eq, not_true_eq_false, if_false,
    hversion, htake, hfields, ok_bind]
  rfl

/-- The method of a request line, and where its target ends. -/
theorem scan_line {line method path after : Bytes} {query : Option Bytes} (hmethod : 32 ∉ method)
    (hmark : 63 ∉ path) (htarget : 32 ∉ target path query)
    (hline : line = method ++ 32 :: (target path query ++ 32 :: after)) :
    find line 32 0 = some method.length ∧ substr line 0 method.length = .ok method ∧
      scanTarget line line.length (method.length + 1) none =
        .ok (query.map fun _ => method.length + 1 + path.length + 1,
          some (method.length + 1 + (target path query).length)) := by
  refine ⟨?_, ?_, ?_⟩
  · rw [hline]
    exact find_append hmethod _
  · rw [hline]
    exact substr_append [] method _ rfl rfl
  · have hline' : line = (method ++ [32]) ++ (target path query ++ 32 :: after) := by
      rw [hline, List.append_cons]
    have hfuel : (target path query).length < line.length := by
      rw [hline]
      simp only [List.length_append, List.length_cons]
      omega
    exact scanTarget_target hmark htarget hline' (by simp) hfuel

/-- **A request line is taken apart**; what follows it is read by the header parser. -/
theorem parse_line {stream stream' method path version rest : Bytes} {query : Option Bytes}
    {fields : CaseInsensitiveMultimap} (hmethod : 32 ∉ method) (hmark : 63 ∉ path)
    (htarget : 32 ∉ target path query)
    (hline : getline stream =
      some (method ++ 32 :: (target path query ++ 32 :: (ascii "HTTP/" ++ version)), stream'))
    (hfields : HttpHeader.parse stream' = .ok (fields, rest)) (out : RequestMessage) :
    parse stream out =
      .ok (true, ⟨method, path, query.getD out.queryString, version.dropLast, fields⟩, rest) := by
  obtain ⟨line, heq⟩ :
      ∃ line, line = method ++ 32 :: (target path query ++ 32 :: (ascii "HTTP/" ++ version)) :=
    ⟨_, rfl⟩
  obtain ⟨hend, hmethodOut, hscan⟩ := scan_line hmethod hmark htarget heq
  have hbefore : (method ++ 32 :: target path query).length =
      method.length + 1 + (target path query).length := by
    simp only [List.length_append, List.length_cons]
    omega
  have hprotocol := @parseProtocol_http line (method ++ 32 :: target path query) version stream'
    rest fields (by rw [heq]; simp) hfields
  rw [hbefore] at hprotocol
  rw [← heq] at hline
  have hpath : ∀ n, n = path.length → substr line (method.length + 1) n = .ok path := by
    rintro n rfl
    obtain ⟨after, hafter⟩ : ∃ after, target path query = path ++ after := by
      cases query with
      | none => exact ⟨[], by simp [target]⟩
      | some q => exact ⟨63 :: q, rfl⟩
    have hfull : line = (method ++ [32]) ++ (path ++ (after ++ 32 :: (ascii "HTTP/" ++ version))) := by
      rw [heq, hafter]
      simp
    rw [hfull]
    exact substr_append _ path _ (by simp) rfl
  cases query with
  | none =>
      have hsize : sizeSub (sizeSub (method.length + 1 + path.length) method.length) 1 =
          path.length := by
        rw [sizeSub_of_le (show method.length ≤ _ by omega), sizeSub_of_le (by omega)]
        omega
      simp only [target, Option.map_none] at hscan hprotocol
      simp only [parse, hline, hend, hmethodOut, hscan, hpath _ hsize, hprotocol, ok_bind,
        Option.getD_none]
  | some q =>
      have hpathSize : sizeSub (sizeSub (method.length + 1 + path.length + 1) method.length) 2 =
          path.length := by
        rw [sizeSub_of_le (show method.length ≤ _ by omega), sizeSub_of_le (by omega)]
        omega
      have hquery : substr line (method.length + 1 + path.length + 1)
          (sizeSub (method.length + 1 + (path ++ 63 :: q).length)
            (method.length + 1 + path.length + 1)) = .ok q := by
        have hfull : line = (method ++ [32] ++ path ++ [63]) ++
            (q ++ 32 :: (ascii "HTTP/" ++ version)) := by
          rw [heq]
          simp [target]
        refine substr_between hfull ?_ ?_
        · simp only [List.length_append, List.length_singleton]
        · simp only [List.length_append, List.length_cons]
          omega
      simp only [target, Option.map_some] at hscan hprotocol
      simp only [parse, hline, hend, hmethodOut, hscan, hpath _ hpathSize, hquery, hprotocol,
        Option.getD_some, ok_bind]

/-- A request line, up to the line feed. -/
def requestLine (method t version : Bytes) : Bytes :=
  method ++ ascii " " ++ t ++ ascii " HTTP/" ++ version ++ [13]

/-- **A request line and its fields are read back.** -/
theorem parse_request {method path version : Bytes} {query : Option Bytes}
    (hmethod : 32 ∉ method ∧ 10 ∉ method) (hmark : 63 ∉ path)
    (htarget : 32 ∉ target path query ∧ 10 ∉ target path query) (hversion : 10 ∉ version)
    {stream rest : Bytes} {fields : CaseInsensitiveMultimap}
    (hfields : HttpHeader.parse stream = .ok (fields, rest)) (out : RequestMessage) :
    parse (requestLine method (target path query) version ++ 10 :: stream) out =
      .ok (true, ⟨method, path, query.getD out.queryString, version, fields⟩, rest) := by
  have heq : requestLine method (target path query) version =
      method ++ 32 :: (target path query ++ 32 :: (ascii "HTTP/" ++ (version ++ [13]))) := by
    simp [requestLine, ascii]
  have hlf : 10 ∉ requestLine method (target path query) version := by
    have hhttp : (10 : UInt8) ∉ ascii "HTTP/" := by decide
    rw [heq]
    simp [hmethod.2, htarget.2, hversion, hhttp]
  have hline := getline_append hlf stream
  rw [heq] at hline ⊢
  rw [parse_line hmethod.1 hmark htarget.1 hline hfields, List.dropLast_concat]

/-- The stream behind a successful first line matters only to the header parser. -/
theorem parseProtocol_stream {stream line rest : Bytes} {n : ℕ} {out out' : RequestMessage}
    (h : parseProtocol stream line n out = .ok (true, out', rest)) :
    ∃ fields, HttpHeader.parse stream = .ok (fields, rest) ∧
      ∀ stream' rest', HttpHeader.parse stream' = .ok (fields, rest') →
        parseProtocol stream' line n out = .ok (true, out', rest') := by
  rw [parseProtocol] at h
  cases hfind : find line 47 (n + 1) with
  | none =>
      rw [hfind] at h
      cases h
  | some protocolEnd =>
      rw [hfind] at h
      obtain ⟨protocol, hprotocol, h⟩ := exists_of_bind h
      split at h
      · cases h
      · next hhttp =>
          obtain ⟨version, hversion, h⟩ := exists_of_bind h
          obtain ⟨⟨fields, rest'⟩, hfields, h⟩ := exists_of_bind h
          obtain ⟨rfl, rfl⟩ := Prod.mk.inj (Prod.mk.inj (Except.ok.inj h)).2
          refine ⟨fields, hfields, ?_⟩
          intro stream' rest'' hfields'
          simp only [parseProtocol, hfind, hprotocol, hhttp, if_false, hversion, hfields', ok_bind,
            pure_eq_ok]

theorem parse_stream {stream line rest : Bytes} (hline : 10 ∉ line) {out out' : RequestMessage}
    (h : parse (line ++ 10 :: stream) out = .ok (true, out', rest)) :
    ∃ fields, HttpHeader.parse stream = .ok (fields, rest) ∧
      ∀ stream' rest', HttpHeader.parse stream' = .ok (fields, rest') →
        parse (line ++ 10 :: stream') out = .ok (true, out', rest') := by
  rw [parse, getline_append hline] at h
  dsimp only at h
  cases hfind : find line 32 0 with
  | none =>
      rw [hfind] at h
      cases h
  | some methodEnd =>
      rw [hfind] at h
      obtain ⟨method, hmethod, h⟩ := exists_of_bind h
      obtain ⟨⟨queryStart, pathEnd⟩, hscan, h⟩ := exists_of_bind h
      cases pathEnd with
      | none => cases h
      | some pathEnd =>
          cases queryStart with
          | some queryStart =>
              obtain ⟨path, hpath, h⟩ := exists_of_bind h
              obtain ⟨queryString, hquery, h⟩ := exists_of_bind h
              obtain ⟨fields, hfields, hstream⟩ := parseProtocol_stream h
              refine ⟨fields, hfields, ?_⟩
              intro stream' rest' hfields'
              simp only [parse, getline_append hline, hfind, hmethod, hscan, hpath, hquery, ok_bind,
                hstream stream' rest' hfields']
          | none =>
              obtain ⟨path, hpath, h⟩ := exists_of_bind h
              obtain ⟨fields, hfields, hstream⟩ := parseProtocol_stream h
              refine ⟨fields, hfields, ?_⟩
              intro stream' rest' hfields'
              simp only [parse, getline_append hline, hfind, hmethod, hscan, hpath, ok_bind,
                hstream stream' rest' hfields']

theorem length_parseProtocol {stream line rest : Bytes} {n : ℕ} {out out' : RequestMessage}
    {success : Bool} (h : parseProtocol stream line n out = .ok (success, out', rest)) :
    rest.length ≤ stream.length := by
  rw [parseProtocol] at h
  split at h
  · obtain ⟨-, -, rfl⟩ := by simpa using h
    exact le_rfl
  · obtain ⟨protocol, -, h⟩ := exists_of_bind h
    split at h
    · obtain ⟨-, -, rfl⟩ := by simpa using h
      exact le_rfl
    · obtain ⟨version, -, h⟩ := exists_of_bind h
      obtain ⟨⟨fields, rest'⟩, hfields, h⟩ := exists_of_bind h
      obtain ⟨-, -, rfl⟩ := by simpa using h
      exact HttpHeader.length_parse hfields

/-- The request parser only takes from the front of the stream. -/
theorem length_parse {stream rest : Bytes} {out out' : RequestMessage} {success : Bool}
    (h : parse stream out = .ok (success, out', rest)) : rest.length ≤ stream.length := by
  rw [parse] at h
  cases hline : getline stream with
  | none =>
      rw [hline] at h
      obtain ⟨-, -, rfl⟩ := by simpa using h
      exact le_rfl
  | some p =>
      obtain ⟨line, stream'⟩ := p
      have hshorter := length_of_getline hline
      rw [hline] at h
      dsimp only at h
      split at h
      · obtain ⟨-, -, rfl⟩ := by simpa using h
        omega
      · obtain ⟨method, -, h⟩ := exists_of_bind h
        obtain ⟨⟨queryStart, pathEnd⟩, -, h⟩ := exists_of_bind h
        dsimp only at h
        split at h
        · obtain ⟨-, -, rfl⟩ := by simpa using h
          omega
        · obtain ⟨path, -, h⟩ := exists_of_bind h
          obtain ⟨queryString, -, h⟩ := exists_of_bind h
          have hrest := length_parseProtocol h
          omega
        · obtain ⟨path, -, h⟩ := exists_of_bind h
          have hrest := length_parseProtocol h
          omega

end RequestMessage

/-- The out parameters of `ResponseMessage::parse`. -/
structure ResponseMessage where
  version : Bytes := []
  statusCode : Bytes := []
  header : CaseInsensitiveMultimap := []
  deriving DecidableEq, Repr

namespace ResponseMessage

/-- `ResponseMessage::parse`: the verdict, the out parameters, and what is left of the stream. -/
def parse (stream : Bytes) (out : ResponseMessage) :
    Except Fault (Bool × ResponseMessage × Bytes) :=
  match getline stream with
  | none => .ok (false, out, stream)
  | some (line, stream) =>
      match find line 32 0 with
      | none => .ok (false, out, stream)
      | some versionEnd =>
          if 5 < line.length then do
            let version ← substr line 5 (sizeSub versionEnd 5)
            let out := { out with version }
            if versionEnd + 1 < line.length then
              let last ← back line
              let statusCode ← substr line (versionEnd + 1)
                (sizeSub (sizeSub line.length (versionEnd + 1)) (if last = 13 then 1 else 0))
              let (header, stream) ← HttpHeader.parse stream
              return (true, { out with statusCode, header }, stream)
            else return (false, out, stream)
          else .ok (false, out, stream)

/-- No stream makes the response parser fault. -/
theorem parse_ok (stream : Bytes) (out : ResponseMessage) :
    ∃ success out' rest, parse stream out = .ok (success, out', rest) := by
  cases hline : getline stream with
  | none => exact ⟨false, out, stream, by simp only [parse, hline]⟩
  | some p =>
      obtain ⟨line, stream'⟩ := p
      cases hfind : find line 32 0 with
      | none => exact ⟨false, out, stream', by simp only [parse, hline, hfind]⟩
      | some versionEnd =>
          by_cases hlong : 5 < line.length
          · have hversion := @substr_of_le line 5 hlong.le (sizeSub versionEnd 5)
            by_cases hstatus : versionEnd + 1 < line.length
            · obtain ⟨last, hlast⟩ := @exists_back line (by rintro rfl; simp at hlong)
              have hcode := @substr_of_le line (versionEnd + 1) hstatus.le
                (sizeSub (sizeSub line.length (versionEnd + 1)) (if last = 13 then 1 else 0))
              obtain ⟨fields, rest, hfields⟩ := HttpHeader.parse_ok stream'
              simp [parse, hline, hfind, hlong, hversion, hstatus, hlast, hcode, hfields]
            · simp [parse, hline, hfind, hlong, hversion, hstatus]
          · simp [parse, hline, hfind, hlong]

/-- What a successful parser leaves of the stream is what the header parser leaves. -/
theorem parse_rest {line stream rest : Bytes} (hline : 10 ∉ line) {out out' : ResponseMessage}
    (h : parse (line ++ 10 :: stream) out = .ok (true, out', rest)) :
    ∃ fields, HttpHeader.parse stream = .ok (fields, rest) := by
  obtain ⟨fields, rest', hfields⟩ := HttpHeader.parse_ok stream
  cases hfind : find line 32 0 with
  | none => simp [parse, getline_append hline, hfind] at h
  | some versionEnd =>
      by_cases hlong : 5 < line.length
      · have hversion := @substr_of_le line 5 hlong.le (sizeSub versionEnd 5)
        by_cases hstatus : versionEnd + 1 < line.length
        · obtain ⟨last, hlast⟩ := @exists_back line (by rintro rfl; simp at hlong)
          have hcode := @substr_of_le line (versionEnd + 1) hstatus.le
            (sizeSub (sizeSub line.length (versionEnd + 1)) (if last = 13 then 1 else 0))
          simp only [parse, getline_append hline, hfind, if_pos hlong, hversion, if_pos hstatus,
            hlast, hcode, hfields, ok_bind, pure_eq_ok, Except.ok.injEq, Prod.mk.injEq] at h
          obtain ⟨-, -, rfl⟩ := h
          exact ⟨fields, hfields⟩
        · simp [parse, getline_append hline, hfind, hlong, hversion, hstatus] at h
      · simp [parse, getline_append hline, hfind, hlong] at h

/-- A status line, up to the line feed. -/
def statusLine (version statusCode : Bytes) : Bytes :=
  ascii "HTTP/" ++ version ++ ascii " " ++ statusCode ++ [13]

/-- **A status line and its fields are read back.** -/
theorem parse_response {version statusCode : Bytes} (hversion : 32 ∉ version ∧ 10 ∉ version)
    (hstatus : 10 ∉ statusCode) {stream rest : Bytes} {fields : CaseInsensitiveMultimap}
    (hfields : HttpHeader.parse stream = .ok (fields, rest)) (out : ResponseMessage) :
    parse (statusLine version statusCode ++ 10 :: stream) out =
      .ok (true, ⟨version, statusCode, fields⟩, rest) := by
  have hhttp : (ascii "HTTP/").length = 5 := rfl
  have heq : statusLine version statusCode =
      ascii "HTTP/" ++ (version ++ (32 :: statusCode ++ [13])) := by
    simp [statusLine, ascii]
  have heq' : statusLine version statusCode =
      (ascii "HTTP/" ++ version ++ [32]) ++ (statusCode ++ [13]) := by
    simp [statusLine, ascii]
  have hlf : 10 ∉ statusLine version statusCode := by
    have hnot : (10 : UInt8) ∉ ascii "HTTP/" := by decide
    rw [heq]
    simp [hnot, hversion.2, hstatus]
  have hspace : 32 ∉ ascii "HTTP/" ++ version := by
    have hnot : (32 : UInt8) ∉ ascii "HTTP/" := by decide
    simp [hnot, hversion.1]
  have hend : find (statusLine version statusCode) 32 0 = some (5 + version.length) := by
    have hfind := find_append hspace (statusCode ++ [13])
    rw [List.length_append, hhttp] at hfind
    rw [← hfind]
    simp [statusLine, ascii]
  have hlen : (statusLine version statusCode).length =
      5 + version.length + 1 + (statusCode.length + 1) := by
    rw [heq']
    simp only [List.length_append, List.length_cons, List.length_nil, hhttp]
  have hversionOut : substr (statusLine version statusCode) 5 (sizeSub (5 + version.length) 5) =
      .ok version :=
    substr_between heq rfl rfl
  have hback : back (statusLine version statusCode) = .ok 13 := by
    rw [heq', ← List.append_assoc]
    exact back_append _ 13
  have hstatusOut : substr (statusLine version statusCode) (5 + version.length + 1)
      (sizeSub (sizeSub (statusLine version statusCode).length (5 + version.length + 1)) 1) =
        .ok statusCode := by
    rw [hlen, sizeSub_of_le (show 5 + version.length + 1 ≤ _ by omega), sizeSub_of_le (by omega),
      heq']
    apply substr_append _ statusCode [13]
    · simp only [List.length_append, List.length_cons, List.length_nil, hhttp]
    · omega
  have hlong : 5 < (statusLine version statusCode).length := by omega
  have hshort : 5 + version.length + 1 < (statusLine version statusCode).length := by omega
  simp only [parse, getline_append hlf, hend, if_pos hlong, hversionOut, if_pos hshort, hback,
    hstatusOut, hfields, if_pos, ok_bind, pure_eq_ok]

end ResponseMessage

/-! ### The end of a head -/

/-- The number of bytes that `async_read_until` finds up to the end of the first `"\r\n\r\n"`. -/
def endOfHead : Bytes → Option ℕ
  | [] => none
  | b :: s => if (crlf ++ crlf) <+: (b :: s) then some 4 else (endOfHead s).map (· + 1)

/-- The lines of a stream; the last of them may lack its line feed. -/
def lines : Bytes → List Bytes
  | [] => []
  | b :: s =>
      if b = 10 then [] :: lines s
      else
        match lines s with
        | [] => [[b]]
        | line :: rest => (b :: line) :: rest

/-- In a regular head every line between the first and the empty one has a colon. -/
def RegularHead (head : Bytes) : Prop := ∀ l ∈ (lines head).tail.dropLast, 58 ∈ l

instance (head : Bytes) : Decidable (RegularHead head) :=
  inferInstanceAs (Decidable (∀ l ∈ (lines head).tail.dropLast, 58 ∈ l))

theorem endOfHead_append {l : Bytes} (h : 13 ∉ l) (s : Bytes) :
    endOfHead (l ++ s) = (endOfHead s).map (· + l.length) := by
  induction l with
  | nil => simp
  | cons b l ih =>
      obtain ⟨hb, hl⟩ : b ≠ 13 ∧ 13 ∉ l := by simpa [eq_comm] using h
      have hnot : ¬ (crlf ++ crlf) <+: (b :: (l ++ s)) := by
        rintro ⟨t, ht⟩
        simp only [crlf, List.cons_append, List.cons.injEq] at ht
        exact hb ht.1.symm
      rw [List.cons_append, endOfHead, if_neg hnot, ih hl, Option.map_map]
      rfl

theorem endOfHead_crlf {c : UInt8} (hc : c ≠ 13) (s : Bytes) :
    endOfHead (crlf ++ c :: s) = (endOfHead (c :: s)).map (· + 2) := by
  have hfirst : ¬ (crlf ++ crlf) <+: (13 :: 10 :: c :: s) := by
    rintro ⟨t, ht⟩
    simp only [crlf, List.cons_append, List.nil_append, List.cons.injEq] at ht
    exact hc ht.2.2.1.symm
  have hsecond := @endOfHead_append [10] (by decide) (c :: s)
  show endOfHead (13 :: 10 :: c :: s) = _
  rw [endOfHead, if_neg hfirst, show 10 :: c :: s = [10] ++ c :: s by rfl, hsecond, Option.map_map]
  rfl

/-- **A first line and plain fields end where they end**: no earlier part of them looks like the end
of a head. -/
theorem endOfHead_fields {l : Bytes} (hl : 13 ∉ l) {fields : CaseInsensitiveMultimap}
    (h : ∀ f ∈ fields, HttpHeader.Plain f) (rest : Bytes) :
    endOfHead (l ++ crlf ++ (HttpHeader.fieldLines fields ++ rest)) =
      some (l.length + 2 + (HttpHeader.fieldLines fields).length) := by
  rw [List.append_assoc, endOfHead_append hl]
  induction fields generalizing l with
  | nil =>
      have hempty : endOfHead (crlf ++ (HttpHeader.fieldLines [] ++ rest)) = some 4 := by
        simp [HttpHeader.fieldLines, HttpHeader.unlines, crlf, endOfHead]
      rw [hempty, Option.map_some, Option.some.injEq, Nat.add_comm]
      rfl
  | cons f fields ih =>
      have hf := h f (by simp)
      -- the line of the field, without its line end
      obtain ⟨c, t, hct⟩ : ∃ c t, f.1 ++ ascii ": " ++ f.2 = c :: t :=
        List.exists_cons_of_ne_nil (by simp [ascii])
      have hcr : 13 ∉ c :: t := by
        have hsep : (13 : UInt8) ∉ ascii ": " := by decide
        rw [← hct]
        simp [hf.cr_name, hf.cr_value, hsep]
      have hc : c ≠ 13 := by
        rintro rfl
        simp at hcr
      have hlines : HttpHeader.fieldLines (f :: fields) =
          c :: t ++ (crlf ++ HttpHeader.fieldLines fields) := by
        rw [← hct]
        simp [HttpHeader.fieldLines, HttpHeader.unlines, HttpHeader.fieldLine, crlf]
      have hrest := (endOfHead_append hcr _).trans
        (ih hcr fun x hx => h x (List.mem_cons_of_mem _ hx))
      have hcrlf := endOfHead_crlf hc (t ++ (crlf ++ (HttpHeader.fieldLines fields ++ rest)))
      rw [hlines]
      simp only [List.append_assoc, List.cons_append] at hrest hcrlf ⊢
      rw [hcrlf, hrest]
      simp only [Option.map_some, List.length_append, List.length_cons, Option.some.injEq,
        show crlf.length = 2 by rfl]
      omega

/-- A head that is written as a first line and plain fields is one whole head. -/
theorem endOfHead_line {l : Bytes} (hl : 13 ∉ l) {fields : CaseInsensitiveMultimap}
    (h : ∀ f ∈ fields, HttpHeader.Plain f) :
    endOfHead (l ++ [13] ++ 10 :: HttpHeader.fieldLines fields) =
      some (l ++ [13] ++ 10 :: HttpHeader.fieldLines fields).length := by
  have hend := endOfHead_fields hl h []
  rw [List.append_nil] at hend
  have heq : l ++ [13] ++ 10 :: HttpHeader.fieldLines fields =
      l ++ crlf ++ HttpHeader.fieldLines fields := by
    simp [crlf]
  simp only [heq, hend, List.length_append, show crlf.length = 2 by rfl]

/-! #### The lines of a head -/

theorem lines_append {l : Bytes} (h : 10 ∉ l) (s : Bytes) : lines (l ++ 10 :: s) = l :: lines s := by
  induction l with
  | nil => simp [lines]
  | cons b l ih =>
      obtain ⟨hb, hl⟩ : b ≠ 10 ∧ 10 ∉ l := by simpa [eq_comm] using h
      simp only [List.cons_append, lines, if_neg hb, ih hl]

theorem lines_unlines {ls : List Bytes} (h : ∀ l ∈ ls, 10 ∉ l) :
    lines (HttpHeader.unlines ls) = ls := by
  induction ls with
  | nil => rfl
  | cons l ls ih =>
      have heq := HttpHeader.unlines_cons l ls []
      rw [List.append_nil, List.append_nil] at heq
      rw [heq, lines_append (h l (by simp)), ih fun x hx => h x (List.mem_cons_of_mem _ hx)]

/-- Every string is made of lines and an unfinished one. -/
theorem exists_unlines (s : Bytes) :
    ∃ ls l, s = HttpHeader.unlines ls ++ l ∧ (∀ x ∈ ls, 10 ∉ x) ∧ 10 ∉ l := by
  induction s using List.reverseRecOn with
  | nil => exact ⟨[], [], rfl, by simp, by simp⟩
  | append_singleton s b ih =>
      obtain ⟨ls, l, rfl, hls, hl⟩ := ih
      by_cases hb : b = 10
      · refine ⟨ls ++ [l], [], ?_, ?_, by simp⟩
        · simp [HttpHeader.unlines, hb]
        · intro x hx
          rcases List.mem_append.1 hx with hx | hx
          · exact hls x hx
          · rwa [List.mem_singleton.1 hx]
      · exact ⟨ls, l ++ [b], by simp, hls, by simp [hl, Ne.symm hb]⟩

theorem endOfHead_eq {s : Bytes} {n : ℕ} (h : endOfHead s = some n) :
    ∃ a, s.take n = a ++ (crlf ++ crlf) := by
  induction s generalizing n with
  | nil => cases h
  | cons b s ih =>
      rw [endOfHead] at h
      split at h
      · next hprefix =>
          obtain rfl : 4 = n := by simpa using h
          obtain ⟨t, ht⟩ := hprefix
          exact ⟨[], by simp [← ht, crlf]⟩
      · obtain ⟨k, hk, rfl⟩ := Option.map_eq_some_iff.1 h
        obtain ⟨a, ha⟩ := ih hk
        exact ⟨b :: a, by simp [ha]⟩

/-- **The lines of a head**: a first line, field lines and an empty line. -/
theorem lines_head {s : Bytes} {n : ℕ} (h : endOfHead s = some n) :
    ∃ first ls, lines (s.take n) = first :: (ls ++ [[13]]) ∧ 10 ∉ first ∧ (∀ l ∈ ls, 10 ∉ l) ∧
      s = first ++ 10 :: (HttpHeader.unlines ls ++ ([13] ++ 10 :: s.drop n)) := by
  obtain ⟨a, ha⟩ := endOfHead_eq h
  obtain ⟨ls, l, rfl, hls, hl⟩ := exists_unlines a
  obtain ⟨first, ls', hcons⟩ : ∃ first ls', ls ++ [l ++ [13]] = first :: ls' :=
    List.exists_cons_of_ne_nil (by simp)
  have hlf : ∀ x ∈ first :: ls', 10 ∉ x := by
    intro x hx
    rw [← hcons] at hx
    rcases List.mem_append.1 hx with hx | hx
    · exact hls x hx
    · rw [List.mem_singleton.1 hx]
      simp [hl]
  have htake : s.take n = HttpHeader.unlines (first :: (ls' ++ [[13]])) := by
    rw [ha, ← List.cons_append, ← hcons]
    simp [HttpHeader.unlines, crlf]
  refine ⟨first, ls', ?_, hlf first (by simp), fun x hx => hlf x (List.mem_cons_of_mem _ hx), ?_⟩
  · rw [htake]
    apply lines_unlines
    intro x hx
    rcases List.mem_append.1 (show x ∈ first :: ls' ++ [[13]] from hx) with hx | hx
    · exact hlf x hx
    · rw [List.mem_singleton.1 hx]
      decide
  · conv_lhs => rw [← List.take_append_drop n s, htake, HttpHeader.unlines_cons]
    simp [HttpHeader.unlines]

/-- A regular head has a first line, and behind it the header parser reads up to its end. -/
theorem exists_regular {s : Bytes} {n : ℕ} (hend : endOfHead s = some n)
    (hregular : RegularHead (s.take n)) :
    ∃ first ls, 10 ∉ first ∧
      s = first ++ 10 :: (HttpHeader.unlines ls ++ ([13] ++ 10 :: s.drop n)) ∧
      ∀ rest, HttpHeader.parse (HttpHeader.unlines ls ++ ([13] ++ 10 :: rest)) =
        .ok (ls.flatMap HttpHeader.fieldOf, rest) := by
  obtain ⟨first, ls, hlines, hfirst, hls, heq⟩ := lines_head hend
  have hcolon : ∀ l ∈ ls, 10 ∉ l ∧ 58 ∈ l := by
    intro l hl
    refine ⟨hls l hl, hregular l ?_⟩
    rw [hlines, List.tail_cons, List.dropLast_concat]
    exact hl
  exact ⟨first, ls, hfirst, heq, fun rest => HttpHeader.parse_lines hcolon (by decide) rest⟩

/-- **A regular response head is consumed exactly.** -/
theorem ResponseMessage.parse_regular {response : Bytes} {n : ℕ} (hend : endOfHead response = some n)
    (hregular : RegularHead (response.take n)) {out out' : ResponseMessage} {rest : Bytes}
    (h : ResponseMessage.parse response out = .ok (true, out', rest)) : rest = response.drop n := by
  obtain ⟨first, ls, hfirst, heq, hparse⟩ := exists_regular hend hregular
  rw [heq] at h
  obtain ⟨fields, hfields⟩ := parse_rest hfirst h
  rw [hparse] at hfields
  exact (Prod.mk.inj (Except.ok.inj hfields)).2.symm

/-- **A regular request head is consumed exactly**, whatever is behind it. -/
theorem RequestMessage.parse_regular {head : Bytes} (hend : endOfHead head = some head.length)
    (hregular : RegularHead head) {out out' : RequestMessage} {rest : Bytes}
    (h : RequestMessage.parse head out = .ok (true, out', rest)) (s : Bytes) :
    RequestMessage.parse (head ++ s) out = .ok (true, out', s) := by
  obtain ⟨first, ls, hfirst, heq, hparse⟩ :=
    exists_regular hend (by rwa [List.take_of_length_le le_rfl])
  rw [heq] at h
  obtain ⟨fields, hfields, hstream⟩ := parse_stream hfirst h
  rw [hparse] at hfields
  obtain rfl := (Prod.mk.inj (Except.ok.inj hfields)).1
  have hs := hstream _ s (hparse s)
  rw [List.drop_length] at heq
  rw [heq, List.append_assoc, List.cons_append, List.append_assoc]
  exact hs

end SimpleWeb
