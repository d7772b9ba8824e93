/-
**Semicolon-separated attributes.**

A model of `HttpHeader::FieldValue::SemicolonSeparatedAttributes` of `common/utility.hpp`, which reads
the values of header fields such as `Content-Disposition`: names, and names with a value behind an
`=`, with `;` between two of them.  One loop over the positions of the string remembers where the
current name began, where it ended and where the value began; the attribute behind the last `;` is
read after the loop.

The loop takes the first character behind an `=` for the beginning of a value whatever it is, and
ends a value at a quote or a semicolon, whichever comes first.  So it does not see that a value
without quotes is empty, and it ends a quoted value at a semicolon inside the quotes.

Main definitions:

* `SimpleWeb.SemicolonSeparatedAttributes.parse`;
* `SimpleWeb.Attribute` — the three ways to write an attribute;
* `SimpleWeb.Attribute.Sound` — the attributes that the loop keeps together.

Main results:

* `SimpleWeb.SemicolonSeparatedAttributes.parse_sound` — sound attributes are read back;
* `SimpleWeb.SemicolonSeparatedAttributes.recovers_iff` — **the attributes behind which every list is
  read back are the sound ones**.
-/

import SimpleWeb.QueryString

set_option relaxedAutoImplicit false
set_option autoImplicit false

namespace SimpleWeb

/-! ### The parser -/

namespace SemicolonSeparatedAttributes

/-- What the loop remembers; a position of `npos` is `none`. -/
structure Scan where
  nameStartPos : Option ℕ
  nameEndPos : Option ℕ
  valueStartPos : Option ℕ
  result : CaseInsensitiveMultimap
  deriving DecidableEq, Repr

/-- The body of the loop. -/
def scan (value : Bytes) (s : Scan) (c : ℕ) : Except Fault Scan := do
  let chr ← charAt value c
  match s.nameStartPos, s.nameEndPos, s.valueStartPos with
  | none, _, _ =>
      if chr ≠ 32 ∧ chr ≠ 59 then return { s with nameStartPos := some c } else return s
  | some nameStartPos, none, _ =>
      if chr = 59 then
        let name ← substr value nameStartPos (sizeSub c nameStartPos)
        return { s with nameStartPos := none, result := emplace s.result name [] }
      else if chr = 61 then return { s with nameEndPos := some c }
      else return s
  | some _, some _, none =>
      if chr = 34 ∧ c + 1 < value.length then return { s with valueStartPos := some (c + 1) }
      else return { s with valueStartPos := some c }
  | some nameStartPos, some nameEndPos, some valueStartPos =>
      if chr = 34 ∨ chr = 59 then
        let name ← substr value nameStartPos (sizeSub nameEndPos nameStartPos)
        let text ← substr value valueStartPos (sizeSub c valueStartPos)
        return ⟨none, none, none, emplace s.result name (Percent.decode text)⟩
      else return s

/-- What follows the loop: the attribute that nothing ends. -/
def lastAttribute (value : Bytes) (s : Scan) : Except Fault CaseInsensitiveMultimap :=
  match s.nameStartPos, s.nameEndPos, s.valueStartPos with
  | none, _, _ => .ok s.result
  | some nameStartPos, none, _ => do
      let name ← substr value nameStartPos value.length
      return emplace s.result name []
  | some _, some _, none => .ok s.result
  | some nameStartPos, some nameEndPos, some valueStartPos => do
      let last ← back value
      let name ← substr value nameStartPos (sizeSub nameEndPos nameStartPos)
      let text ← substr value valueStartPos
        (if last = 34 then sizeSub value.length 1 else value.length)
      return emplace s.result name (Percent.decode text)

/-- `SemicolonSeparatedAttributes::parse`. -/
def parse (value : Bytes) : Except Fault CaseInsensitiveMultimap := do
  let s ← (List.range value.length).foldlM (scan value) ⟨none, none, none, []⟩
  lastAttribute value s

end SemicolonSeparatedAttributes

/-! ### Attributes -/

/-- An attribute, in the three ways in which it may be written. -/
inductive Attribute
  | bare (name : Bytes)
  | token (name value : Bytes)
  | quoted (name value : Bytes)
  deriving DecidableEq, Repr

namespace Attribute

def name : Attribute → Bytes
  | bare name | token name _ | quoted name _ => name

/-- An attribute as it is written. -/
def write : Attribute → Bytes
  | bare name => name
  | token name value => name ++ 61 :: value
  | quoted name value => name ++ 61 :: 34 :: (value ++ [34])

/-- What an attribute is to be read as. -/
def field : Attribute → Bytes × Bytes
  | bare name => (name, [])
  | token name value | quoted name value => (name, Percent.decode value)

/-- The characters that may stand in each part of an attribute. -/
structure WellFormed (a : Attribute) : Prop where
  ne_nil : a.name ≠ []
  name : 61 ∉ a.name ∧ 59 ∉ a.name ∧ 34 ∉ a.name ∧ 32 ∉ a.name
  token : ∀ n t, a = .token n t → 59 ∉ t ∧ 34 ∉ t ∧ 32 ∉ t
  text : ∀ n t, a = .quoted n t → 34 ∉ t

/-- A name may stand in front of an `=`. -/
theorem WellFormed.name_ok {a : Attribute} (h : a.WellFormed) :
    61 ∉ a.name ∧ 59 ∉ a.name ∧ 32 ∉ a.name :=
  ⟨h.name.1, h.name.2.1, h.name.2.2.2⟩

/-- An attribute that the loop keeps together: a value without quotes is not empty, and a value in
quotes has no semicolon. -/
def Sound : Attribute → Prop
  | bare _ => True
  | token _ value => value ≠ []
  | quoted _ value => 59 ∉ value

instance : DecidablePred Sound
  | bare _ => inferInstanceAs (Decidable True)
  | token _ value => inferInstanceAs (Decidable (value ≠ []))
  | quoted _ value => inferInstanceAs (Decidable (59 ∉ value))

end Attribute

namespace SemicolonSeparatedAttributes

/-- Attributes with `"; "` between two of them. -/
def join (attributes : List Attribute) : Bytes :=
  [59, 32].intercalate (attributes.map Attribute.write)

/-- The attributes, and no others, are read back. -/
def Recovers (attributes : List Attribute) : Prop :=
  ∃ result, parse (join attributes) = .ok result ∧ result.Perm (attributes.map Attribute.field)

/-! ### The loop over an attribute -/

/-- The state between two attributes. -/
def Scan.idle (result : CaseInsensitiveMultimap) : Scan := ⟨none, none, none, result⟩

/-- The state behind an attribute that begins at `pos`: only a value in quotes has been read yet. -/
def Scan.behind (pos : ℕ) (result : CaseInsensitiveMultimap) : Attribute → Scan
  | .bare _ => ⟨some pos, none, none, result⟩
  | .token name _ => ⟨some pos, some (pos + name.length), some (pos + name.length + 1), result⟩
  | .quoted name value => .idle (result ++ [(name, Percent.decode value)])

section scan

variable {value before after : Bytes} {result : CaseInsensitiveMultimap}

/-- A name is passed over up to its end. -/
theorem scan_name {name : Bytes} (hne : name ≠ []) (hname : 61 ∉ name ∧ 59 ∉ name ∧ 32 ∉ name)
    (hvalue : value = before ++ (name ++ after)) :
    (List.range' before.length name.length).foldlM (scan value) (.idle result) =
      .ok ⟨some before.length, none, none, result⟩ := by
  obtain ⟨chr, chars, rfl⟩ := List.exists_cons_of_ne_nil hne
  simp only [List.mem_cons, not_or] at hname
  obtain ⟨⟨-, hequals⟩, ⟨hsemicolon, hsemicolons⟩, hspace, -⟩ := hname
  have hchar : charAt value before.length = .ok chr := charAt_of_eq hvalue rfl
  have hfirst : scan value (.idle result) before.length =
      .ok ⟨some before.length, none, none, result⟩ := by
    simp [scan, Scan.idle, hchar, Ne.symm hsemicolon, Ne.symm hspace]
  have hignored : ∀ c ∈ chars, ∀ i, charAt value i = .ok c →
      scan value ⟨some before.length, none, none, result⟩ i =
        .ok ⟨some before.length, none, none, result⟩ := by
    intro c hmem i hc
    have hne₁ : c ≠ 59 := fun h => hsemicolons (h ▸ hmem)
    have hne₂ : c ≠ 61 := fun h => hequals (h ▸ hmem)
    simp [scan, hc, hne₁, hne₂]
  have hpart : value = (before ++ [chr]) ++ (chars ++ after) := by
    simp [hvalue]
  have hrest := foldlM_ignored hpart hignored
  rw [List.length_append, List.length_singleton] at hrest
  rw [List.length_cons, Loop.range'_succ, hfirst, ok_bind, hrest]

/-- A name and the `=` behind it. -/
theorem scan_equals {name : Bytes} (hne : name ≠ []) (hname : 61 ∉ name ∧ 59 ∉ name ∧ 32 ∉ name)
    (hvalue : value = before ++ (name ++ 61 :: after)) :
    (List.range' before.length (name.length + 1)).foldlM (scan value) (.idle result) =
      .ok ⟨some before.length, some (before.length + name.length), none, result⟩ := by
  have hfull : value = (before ++ name) ++ 61 :: after := by
    rw [hvalue, List.append_assoc]
  have hchar : charAt value (before.length + name.length) = .ok 61 :=
    charAt_of_eq hfull (by simp)
  have hsign : scan value ⟨some before.length, none, none, result⟩ (before.length + name.length) =
      .ok ⟨some before.length, some (before.length + name.length), none, result⟩ := by
    simp [scan, hchar]
  rw [Loop.range'_add, scan_name hne hname hvalue, ok_bind, Loop.range'_succ, hsign, ok_bind]
  rfl

/-- Characters of a value that do not end it. -/
theorem scan_chars {chars : Bytes} {n e v : ℕ} (hchars : 34 ∉ chars ∧ 59 ∉ chars)
    (hvalue : value = before ++ (chars ++ after)) :
    (List.range' before.length chars.length).foldlM (scan value) ⟨some n, some e, some v, result⟩ =
      .ok ⟨some n, some e, some v, result⟩ := by
  apply foldlM_ignored hvalue
  intro chr hmem c hc
  have hne₁ : chr ≠ 34 := fun h => hchars.1 (h ▸ hmem)
  have hne₂ : chr ≠ 59 := fun h => hchars.2 (h ▸ hmem)
  simp [scan, hc, hne₁, hne₂]

/-- A value in quotes, up to its first quote or semicolon, with something behind it. -/
theorem scan_text {name text : Bytes} {chr : UInt8} (hne : name ≠ [])
    (hname : 61 ∉ name ∧ 59 ∉ name ∧ 32 ∉ name) (htext : 34 ∉ text ∧ 59 ∉ text)
    (hchr : chr = 34 ∨ chr = 59)
    (hvalue : value = before ++ (name ++ 61 :: 34 :: (text ++ chr :: after))) :
    (List.range' before.length (name.length + 1 + (1 + (text.length + 1)))).foldlM (scan value)
        (.idle result) = .ok (.idle (result ++ [(name, Percent.decode text)])) := by
  have hlen : value.length =
      before.length + (name.length + 1 + (1 + (text.length + 1))) + after.length := by
    rw [hvalue]
    simp
    omega
  have hbehind : value = (before ++ name ++ [61]) ++ 34 :: (text ++ chr :: after) := by
    rw [hvalue]
    simp
  have htextFrom : value = (before ++ name ++ [61, 34]) ++ (text ++ chr :: after) := by
    rw [hvalue]
    simp
  have hendFrom : value = (before ++ name ++ [61, 34] ++ text) ++ chr :: after := by
    rw [hvalue]
    simp
  have hpos : (before ++ name ++ [61, 34]).length = before.length + (name.length + 1) + 1 := by
    simp
    omega
  have hquote : charAt value (before.length + (name.length + 1)) = .ok 34 :=
    charAt_of_eq hbehind (by simp)
  have hopen : scan value ⟨some before.length, some (before.length + name.length), none, result⟩
      (before.length + (name.length + 1)) =
        .ok ⟨some before.length, some (before.length + name.length),
          some (before.length + (name.length + 1) + 1), result⟩ := by
    simp only [scan, hquote, ok_bind, true_and, if_pos (show before.length + (name.length + 1) + 1 <
      value.length by omega), pure_eq_ok]
  have hinside := @scan_chars value (before ++ name ++ [61, 34]) (chr :: after) result text
    before.length (before.length + name.length) (before.length + (name.length + 1) + 1) htext
    htextFrom
  rw [hpos] at hinside
  have hend : charAt value (before.length + (name.length + 1) + 1 + text.length) = .ok chr :=
    charAt_of_eq hendFrom (by rw [List.length_append, hpos])
  have hnameOut : substr value before.length
      (sizeSub (before.length + name.length) before.length) = .ok name :=
    substr_between hvalue rfl rfl
  have htextOut : substr value (before.length + (name.length + 1) + 1)
      (sizeSub (before.length + (name.length + 1) + 1 + text.length)
        (before.length + (name.length + 1) + 1)) = .ok text :=
    substr_between htextFrom hpos.symm rfl
  have hclose : scan value ⟨some before.length, some (before.length + name.length),
      some (before.length + (name.length + 1) + 1), result⟩
        (before.length + (name.length + 1) + 1 + text.length) =
          .ok (.idle (result ++ [(name, Percent.decode text)])) := by
    simp only [scan, hend, ok_bind, hchr, if_true, hnameOut, htextOut, pure_eq_ok]
    rfl
  rw [Loop.range'_add, scan_equals hne hname hvalue, ok_bind, Nat.add_comm 1, Loop.range'_succ,
    hopen, ok_bind, Loop.range'_add, hinside, ok_bind, Loop.range'_succ, hclose, ok_bind]
  rfl

/-- **A sound attribute**, whatever is behind it. -/
theorem scan_write {a : Attribute} (h : a.WellFormed) (hsound : a.Sound)
    (hvalue : value = before ++ (a.write ++ after)) :
    (List.range' before.length a.write.length).foldlM (scan value) (.idle result) =
      .ok (.behind before.length result a) := by
  cases a with
  | bare name => exact scan_name h.ne_nil h.name_ok hvalue
  | token name chars =>
      have hne : name ≠ [] := h.ne_nil
      have hname : 61 ∉ name ∧ 59 ∉ name ∧ 32 ∉ name := h.name_ok
      obtain ⟨chr, chars, rfl⟩ := List.exists_cons_of_ne_nil hsound
      obtain ⟨hsemicolon, hquote, -⟩ := h.token name _ rfl
      simp only [List.mem_cons, not_or] at hsemicolon hquote
      have hfull : value = before ++ (name ++ 61 :: (chr :: (chars ++ after))) := by
        rw [hvalue]
        simp [Attribute.write]
      have hlen : (Attribute.token name (chr :: chars)).write.length =
          name.length + 1 + (chars.length + 1) := by
        simp [Attribute.write]
        omega
      have hbehind : value = (before ++ name ++ [61]) ++ chr :: (chars ++ after) := by
        rw [hfull]
        simp
      have hchar : charAt value (before.length + (name.length + 1)) = .ok chr :=
        charAt_of_eq hbehind (by simp)
      have hopen : scan value ⟨some before.length, some (before.length + name.length), none, result⟩
          (before.length + (name.length + 1)) =
            .ok (.behind before.length result (.token name (chr :: chars))) := by
        simp only [scan, hchar, ok_bind, Ne.symm hquote.1, false_and, if_false, pure_eq_ok]
        rfl
      have hpos : (before ++ name ++ [61, chr]).length = before.length + (name.length + 1) + 1 := by
        simp
        omega
      have hrest := @scan_chars value (before ++ name ++ [61, chr]) after result chars before.length
        (before.length + name.length) (before.length + name.length + 1)
        ⟨hquote.2, hsemicolon.2⟩ (by rw [hfull]; simp)
      rw [hpos] at hrest
      rw [hlen, Loop.range'_add, scan_equals hne hname hfull, ok_bind, Loop.range'_succ,
        hopen, ok_bind]
      exact hrest
  | quoted name text =>
      have hlen : (Attribute.quoted name text).write.length =
          name.length + 1 + (1 + (text.length + 1)) := by
        simp [Attribute.write]
        omega
      have hfull : value = before ++ (name ++ 61 :: 34 :: (text ++ 34 :: after)) := by
        rw [hvalue]
        simp [Attribute.write]
      rw [hlen]
      exact scan_text h.ne_nil h.name_ok ⟨h.text name text rfl, hsound⟩ (Or.inl rfl) hfull

/-- A semicolon behind an attribute adds what has not been added yet. -/
theorem scan_semicolon {a : Attribute} (hvalue : value = before ++ (a.write ++ 59 :: after)) :
    scan value (.behind before.length result a) (before.length + a.write.length) =
      .ok (.idle (result ++ [a.field])) := by
  have hbehind : value = (before ++ a.write) ++ 59 :: after := by
    rw [hvalue, List.append_assoc]
  have hchar : charAt value (before.length + a.write.length) = .ok 59 :=
    charAt_of_eq hbehind (by simp)
  cases a with
  | bare name =>
      have hname : substr value before.length
          (sizeSub (before.length + name.length) before.length) = .ok name :=
        substr_between hvalue rfl rfl
      simp only [Attribute.write] at hchar
      simp only [scan, Scan.behind, Attribute.write, hchar, ok_bind, if_true, hname, pure_eq_ok]
      rfl
  | token name chars =>
      have hfull : value = before ++ (name ++ 61 :: (chars ++ 59 :: after)) := by
        rw [hvalue]
        simp [Attribute.write]
      have htextFrom : value = (before ++ name ++ [61]) ++ (chars ++ 59 :: after) := by
        rw [hfull]
        simp
      have hname : substr value before.length
          (sizeSub (before.length + name.length) before.length) = .ok name :=
        substr_between hfull rfl rfl
      have hlen : (Attribute.token name chars).write.length = name.length + 1 + chars.length := by
        simp [Attribute.write]
        omega
      have htext : substr value (before.length + name.length + 1)
          (sizeSub (before.length + (Attribute.token name chars).write.length)
            (before.length + name.length + 1)) = .ok chars :=
        substr_between htextFrom (by simp; omega) (by rw [hlen]; omega)
      simp only [scan, Scan.behind, hchar, ok_bind, or_true, if_true, hname, htext, pure_eq_ok]
      rfl
  | quoted name text =>
      simp only [scan, Scan.behind, Scan.idle, hchar, ok_bind, ne_eq, not_true_eq_false, and_false,
        if_false, pure_eq_ok]
      rfl

/-- The last attribute is added behind the loop. -/
theorem lastAttribute_behind {a : Attribute} (h : a.WellFormed) (hsound : a.Sound)
    (hvalue : value = before ++ a.write) :
    lastAttribute value (.behind before.length result a) = .ok (result ++ [a.field]) := by
  cases a with
  | bare name =>
      have hname : substr value before.length value.length = .ok name := by
        rw [substr_of_le (by simp [hvalue]), List.take_of_length_le (by simp), hvalue,
          List.drop_left]
        rfl
      simp only [lastAttribute, Scan.behind, hname, ok_bind, pure_eq_ok]
      rfl
  | token name chars =>
      have hname : substr value before.length
          (sizeSub (before.length + name.length) before.length) = .ok name :=
        substr_between hvalue rfl rfl
      have hfull : value = (before ++ name ++ [61]) ++ chars := by
        rw [hvalue]
        simp [Attribute.write]
      have hback : back value = .ok (chars.getLast hsound) := by
        rw [hfull, back, List.getLast?_append_of_ne_nil _ hsound,
          List.getLast?_eq_getLast_of_ne_nil hsound]
      have hlast : chars.getLast hsound ≠ 34 := fun hq =>
        (h.token name chars rfl).2.1 (hq ▸ List.getLast_mem hsound)
      have htext : substr value (before.length + name.length + 1) value.length = .ok chars := by
        have hpos : before.length + name.length + 1 = (before ++ name ++ [61]).length := by
          simp
          omega
        rw [hpos, substr_of_le (by simp [hfull]), List.take_of_length_le (by simp), hfull,
          List.drop_left]
      simp only [lastAttribute, Scan.behind, hback, ok_bind, hname, if_neg hlast, htext, pure_eq_ok]
      rfl
  | quoted name text => rfl

/-! ### Whole lists -/

/-- A list that goes on: what is written in front of its last part. -/
def writeAll (attributes : List Attribute) : Bytes :=
  attributes.flatMap fun a => a.write ++ [59, 32]

theorem join_concat (attributes : List Attribute) (a : Attribute) :
    join (attributes ++ [a]) = writeAll attributes ++ a.write := by
  induction attributes with
  | nil => simp [join, writeAll]
  | cons b attributes ih =>
      have hne : (attributes ++ [a]).map Attribute.write ≠ [] := by simp
      rw [List.cons_append, join, List.map_cons, List.intercalate_cons_of_ne_nil hne, ← join, ih]
      simp [writeAll]

/-- The loop over sound attributes that are followed by something. -/
theorem scan_writeAll {attributes : List Attribute}
    (h : ∀ a ∈ attributes, a.WellFormed ∧ a.Sound)
    (hvalue : value = before ++ (writeAll attributes ++ after)) :
    (List.range' before.length (writeAll attributes).length).foldlM (scan value) (.idle result) =
      .ok (.idle (result ++ attributes.map Attribute.field)) := by
  induction attributes generalizing before result with
  | nil => simp [writeAll]
  | cons a attributes ih =>
      obtain ⟨hwf, hsound⟩ := h a (by simp)
      have hcons : writeAll (a :: attributes) = a.write ++ 59 :: 32 :: writeAll attributes := by
        simp [writeAll]
      rw [hcons, List.append_assoc, List.cons_append] at hvalue
      have hspace : scan value (.idle (result ++ [a.field])) (before.length + a.write.length + 1) =
          .ok (.idle (result ++ [a.field])) := by
        have hchar : charAt value (before.length + a.write.length + 1) = .ok 32 := by
          have hfull : value = (before ++ a.write ++ [59]) ++ 32 :: (writeAll attributes ++ after) := by
            rw [hvalue]
            simp
          exact charAt_of_eq hfull (by simp; omega)
        simp only [scan, Scan.idle, hchar, ok_bind, ne_eq, not_true_eq_false, false_and, if_false,
          pure_eq_ok]
      have hrest := @ih (before ++ a.write ++ [59, 32]) (result ++ [a.field])
        (fun b hb => h b (List.mem_cons_of_mem _ hb)) (by rw [hvalue]; simp)
      have hpos : (before ++ a.write ++ [59, 32]).length = before.length + a.write.length + 1 + 1 := by
        simp
        omega
      rw [hpos] at hrest
      rw [hcons, List.length_append, List.length_cons, List.length_cons, Loop.range'_add,
        scan_write hwf hsound hvalue, ok_bind, Loop.range'_succ, scan_semicolon hvalue, ok_bind,
        Loop.range'_succ, hspace, ok_bind, hrest]
      simp

/-- The loop over sound attributes with an attribute behind them: it has read the former. -/
theorem parse_concat {attributes : List Attribute} (h : ∀ a ∈ attributes, a.WellFormed ∧ a.Sound)
    (a : Attribute) :
    parse (join (attributes ++ [a])) =
      (List.range' (writeAll attributes).length a.write.length).foldlM
          (scan (writeAll attributes ++ a.write)) (.idle (attributes.map Attribute.field)) >>=
        lastAttribute (writeAll attributes ++ a.write) := by
  have hscan := @scan_writeAll (writeAll attributes ++ a.write) [] a.write [] attributes h
    (by simp)
  rw [List.length_nil, List.nil_append] at hscan
  rw [join_concat, parse, List.range_eq_range', List.length_append, Loop.range'_add,
    show (⟨none, none, none, []⟩ : Scan) = .idle [] by rfl, hscan, ok_bind, Nat.zero_add]

/-- **Sound attributes are read back**, in the order in which they are written. -/
theorem parse_sound {attributes : List Attribute} (h : ∀ a ∈ attributes, a.WellFormed ∧ a.Sound) :
    parse (join attributes) = .ok (attributes.map Attribute.field) := by
  rcases List.eq_nil_or_concat attributes with rfl | ⟨attributes, a, rfl⟩
  · rfl
  · rw [List.concat_eq_append] at h ⊢
    obtain ⟨hwf, hsound⟩ := h a (by simp)
    have hwrite := @scan_write (writeAll attributes ++ a.write) (writeAll attributes) []
      (attributes.map Attribute.field) a hwf hsound (by simp)
    rw [parse_concat (fun b hb => h b (List.mem_append_left _ hb)), hwrite, ok_bind,
      lastAttribute_behind hwf hsound rfl]
    simp

/-! ### What goes wrong -/

/-- Where there is no name, there is no end of one. -/
def Scan.Coherent (s : Scan) : Prop := s.nameStartPos = none → s.nameEndPos = none

/-- The loop only adds to its result. -/
theorem scan_grows {s s' : Scan} {c : ℕ} (hs : s.Coherent) (h : scan value s c = .ok s') :
    s'.Coherent ∧ s.result.length ≤ s'.result.length := by
  obtain ⟨start, nameEnd, valueStart, result⟩ := s
  obtain ⟨chr, -, h⟩ := exists_of_bind h
  cases start with
  | none =>
      have hstart : chr ≠ 32 ∧ chr ≠ 59 ∨ ¬ (chr ≠ 32 ∧ chr ≠ 59) := Classical.em _
      rcases hstart with hstart | hstart
      · simp only [hstart, ne_eq, not_false_eq_true, and_self, if_true, pure_eq_ok] at h
        obtain rfl := Except.ok.inj h
        exact ⟨fun hnone => (by cases hnone), le_rfl⟩
      · simp only [hstart, if_false, pure_eq_ok] at h
        obtain rfl := Except.ok.inj h
        exact ⟨hs, le_rfl⟩
  | some start =>
      cases nameEnd with
      | none =>
          dsimp only at h
          split at h
          · obtain ⟨name, -, h⟩ := exists_of_bind h
            obtain rfl := Except.ok.inj h
            exact ⟨fun _ => rfl, by simp [emplace]⟩
          · split at h <;> obtain rfl := Except.ok.inj h
            · exact ⟨fun hnone => (by cases hnone), le_rfl⟩
            · exact ⟨hs, le_rfl⟩
      | some nameEnd =>
          cases valueStart with
          | none =>
              dsimp only at h
              split at h <;> obtain rfl := Except.ok.inj h <;>
                exact ⟨fun hnone => (by cases hnone), le_rfl⟩
          | some valueStart =>
              dsimp only at h
              split at h
              · obtain ⟨name, -, h⟩ := exists_of_bind h
                obtain ⟨text, -, h⟩ := exists_of_bind h
                obtain rfl := Except.ok.inj h
                exact ⟨fun _ => rfl, by simp [emplace]⟩
              · obtain rfl := Except.ok.inj h
                exact ⟨hs, le_rfl⟩

theorem foldlM_grows {s s' : Scan} {pos n : ℕ} (hs : s.Coherent)
    (h : (List.range' pos n).foldlM (scan value) s = .ok s') :
    s'.Coherent ∧ s.result.length ≤ s'.result.length := by
  induction n generalizing pos s with
  | zero =>
      obtain rfl := Except.ok.inj h
      exact ⟨hs, le_rfl⟩
  | succ n ih =>
      rw [Loop.range'_succ] at h
      obtain ⟨t, ht, h⟩ := exists_of_bind h
      obtain ⟨htc, hle⟩ := scan_grows hs ht
      obtain ⟨hs', hle'⟩ := ih htc h
      exact ⟨hs', hle.trans hle'⟩

/-- **A quote at the end of the string makes one more attribute**, whatever the loop has seen before
it. -/
theorem length_quote {s : Scan} {fields : CaseInsensitiveMultimap} {c : ℕ} (hs : s.Coherent)
    (hend : c + 1 = value.length) (hchar : charAt value c = .ok 34)
    (h : (scan value s c >>= lastAttribute value) = .ok fields) :
    s.result.length < fields.length := by
  obtain ⟨start, nameEnd, valueStart, result⟩ := s
  obtain ⟨s', hscan, hlast⟩ := exists_of_bind h
  have hnot : ¬ c + 1 < value.length := by omega
  cases start with
  | none =>
      obtain rfl : nameEnd = none := hs rfl
      obtain rfl : (⟨some c, none, valueStart, result⟩ : Scan) = s' := by
        simpa [scan, hchar] using hscan
      obtain ⟨name, -, hlast⟩ := exists_of_bind hlast
      obtain rfl := Except.ok.inj hlast
      simp [emplace]
  | some start =>
      cases nameEnd with
      | none =>
          obtain rfl : (⟨some start, none, valueStart, result⟩ : Scan) = s' := by
            simpa [scan, hchar] using hscan
          obtain ⟨name, -, hlast⟩ := exists_of_bind hlast
          obtain rfl := Except.ok.inj hlast
          simp [emplace]
      | some nameEnd =>
          cases valueStart with
          | none =>
              obtain rfl : (⟨some start, some nameEnd, some c, result⟩ : Scan) = s' := by
                simpa [scan, hchar, hnot] using hscan
              obtain ⟨last, -, hlast⟩ := exists_of_bind hlast
              obtain ⟨name, -, hlast⟩ := exists_of_bind hlast
              obtain ⟨text, -, hlast⟩ := exists_of_bind hlast
              obtain rfl := Except.ok.inj hlast
              simp [emplace]
          | some valueStart =>
              simp only [scan, hchar, ok_bind, true_or, if_true] at hscan
              obtain ⟨name, -, hscan⟩ := exists_of_bind hscan
              obtain ⟨text, -, hscan⟩ := exists_of_bind hscan
              obtain rfl := Except.ok.inj hscan
              obtain rfl := Except.ok.inj hlast
              simp [emplace]

/-- A rest that ends with a quote makes at least one more attribute. -/
theorem length_rest {s : Scan} {more : Bytes} {fields : CaseInsensitiveMultimap} (hs : s.Coherent)
    (hvalue : value = before ++ (more ++ [34]))
    (h : ((List.range' before.length (more.length + 1)).foldlM (scan value) s >>=
      lastAttribute value) = .ok fields) : s.result.length < fields.length := by
  rw [Loop.range'_add] at h
  obtain ⟨s₂, hloop, hlast⟩ := exists_of_bind h
  obtain ⟨s₁, hmore, hquote⟩ := exists_of_bind hloop
  obtain ⟨hs₁, hle⟩ := foldlM_grows hs hmore
  rw [Loop.range'_succ] at hquote
  obtain ⟨t, ht, hnil⟩ := exists_of_bind hquote
  obtain rfl : t = s₂ := Except.ok.inj hnil
  have hchar : charAt value (before.length + more.length) = .ok 34 := by
    rw [hvalue, ← List.append_assoc]
    exact charAt_append _ [] 34 (by simp)
  have hend : before.length + more.length + 1 = value.length := by
    rw [hvalue]
    simp
    omega
  have hrun : (scan value s₁ (before.length + more.length) >>= lastAttribute value) =
      .ok fields := by
    rw [ht, ok_bind, hlast]
  exact hle.trans_lt (length_quote hs₁ hend hchar hrun)

/-- An attribute that is not sound, behind sound ones: the string is not read as one attribute more. -/
theorem length_unsound {attributes : List Attribute} (h : ∀ a ∈ attributes, a.WellFormed ∧ a.Sound)
    {a : Attribute} (hwf : a.WellFormed) (hsound : ¬ a.Sound) {fields : CaseInsensitiveMultimap}
    (hparse : parse (join (attributes ++ [a])) = .ok fields) :
    fields.length ≠ attributes.length + 1 := by
  rw [parse_concat h a] at hparse
  cases a with
  | bare name => exact absurd trivial hsound
  | token name chars =>
      -- there is no character behind the `=`, so that the attribute is lost
      obtain rfl : chars = [] := not_not.1 hsound
      have hscan := @scan_equals (writeAll attributes ++ (Attribute.token name []).write)
        (writeAll attributes) [] (attributes.map Attribute.field) name hwf.ne_nil hwf.name_ok rfl
      have hlen : (Attribute.token name []).write.length = name.length + 1 := by
        simp [Attribute.write]
      rw [hlen, hscan, ok_bind] at hparse
      obtain rfl := Except.ok.inj hparse
      simp
  | quoted name text =>
      -- the value ends at its first semicolon, and what is behind that makes more attributes
      obtain ⟨text, more, rfl, hsemicolon⟩ := List.eq_append_cons_of_mem (not_not.1 hsound)
      have hquote := hwf.text name _ rfl
      simp only [List.mem_append, List.mem_cons, not_or] at hquote
      have hvalue : writeAll attributes ++ (Attribute.quoted name (text ++ 59 :: more)).write =
          writeAll attributes ++ (name ++ 61 :: 34 :: (text ++ 59 :: (more ++ [34]))) := by
        simp [Attribute.write]
      have hlen : (Attribute.quoted name (text ++ 59 :: more)).write.length =
          name.length + 1 + (1 + (text.length + 1)) + (more.length + 1) := by
        simp [Attribute.write]
        omega
      have htext := @scan_text _ (writeAll attributes) (more ++ [34])
        (attributes.map Attribute.field) name text 59 hwf.ne_nil hwf.name_ok
        ⟨hquote.1, hsemicolon⟩ (Or.inr rfl) hvalue
      rw [hlen, Loop.range'_add, htext, ok_bind] at hparse
      have hpos : (writeAll attributes).length + (name.length + 1 + (1 + (text.length + 1))) =
          (writeAll attributes ++ name ++ [61, 34] ++ text ++ [59]).length := by
        simp
        omega
      rw [hpos] at hparse
      have hlonger := length_rest (fun _ => rfl) (by rw [hvalue]; simp) hparse
      simp only [Scan.idle, List.length_append, List.length_map, List.length_singleton] at hlonger
      omega

/-- **The attributes behind which every list is read back are the sound ones**: a list of sound
attributes is recovered, and when a list is recovered and so is each of its beginnings, then its
attributes are sound. -/
theorem recovers_iff {attributes : List Attribute} (h : ∀ a ∈ attributes, a.WellFormed) :
    ((∀ a ∈ attributes, a.Sound) → Recovers attributes) ∧
      ((∀ k, Recovers (attributes.take k)) ↔ ∀ a ∈ attributes, a.Sound) := by
  have hsound : ∀ l : List Attribute, (∀ a ∈ l, a ∈ attributes) → (∀ a ∈ l, a.Sound) →
      Recovers l := by
    intro l hsub hl
    exact ⟨_, parse_sound fun a ha => ⟨h a (hsub a ha), hl a ha⟩, List.Perm.refl _⟩
  refine ⟨hsound attributes fun _ ha => ha, ?_, ?_⟩
  · induction attributes using List.reverseRecOn with
    | nil => simp
    | append_singleton attributes a ih =>
        intro hall
        have hinit := ih (fun b hb => h b (List.mem_append_left _ hb))
          (fun l hsub => hsound l fun b hb => List.mem_append_left _ (hsub b hb)) (by
            intro k
            have hk := hall (min k attributes.length)
            rw [List.take_append_of_le_length (min_le_right _ _)] at hk
            rwa [List.take_eq_take_min])
        obtain ⟨result, hparse, hperm⟩ := hall (attributes.length + 1)
        rw [List.take_of_length_le (by simp)] at hparse hperm
        have hlast : a.Sound := by
          by_contra hnot
          refine length_unsound (fun b hb => ⟨h b (List.mem_append_left _ hb), hinit b hb⟩)
            (h a (by simp)) hnot hparse ?_
          rw [hperm.length_eq]
          simp
        intro b hb
        rcases List.mem_append.1 hb with hb | hb
        · exact hinit b hb
        · rwa [List.mem_singleton.1 hb]
  · intro hall k
    exact hsound _ (fun a ha => List.mem_of_mem_take ha) fun a ha => hall a (List.mem_of_mem_take ha)

end scan

/-- A bare name, a quoted value with an `=` and an encoded character, an empty quoted value and a
token. -/
theorem recovers_iff_disposition :
    ((∀ a ∈ [Attribute.bare (ascii "form-data"), .quoted (ascii "name") (ascii "a=%20b"),
        .quoted (ascii "empty") [], .token (ascii "size") (ascii "7")], a.Sound) →
      Recovers [.bare (ascii "form-data"), .quoted (ascii "name") (ascii "a=%20b"),
        .quoted (ascii "empty") [], .token (ascii "size") (ascii "7")]) ∧
    ((∀ k, Recovers ([Attribute.bare (ascii "form-data"), .quoted (ascii "name") (ascii "a=%20b"),
        .quoted (ascii "empty") [], .token (ascii "size") (ascii "7")].take k)) ↔
      ∀ a ∈ [Attribute.bare (ascii "form-data"), .quoted (ascii "name") (ascii "a=%20b"),
        .quoted (ascii "empty") [], .token (ascii "size") (ascii "7")], a.Sound) :=
  recovers_iff (by
    intro a ha
    simp only [List.mem_cons, List.not_mem_nil, or_false] at ha
    rcases ha with rfl | rfl | rfl | rfl <;>
      exact ⟨by decide, by decide, by rintro n t ⟨⟩ <;> decide, by rintro n t ⟨⟩ <;> decide⟩)

/-- A file name with a semicolon in it: it is cut there, and what is behind the semicolon becomes an
attribute of its own. -/
theorem semicolon_cuts :
    (∀ a ∈ [Attribute.quoted (ascii "filename") (ascii "a;b")], a.WellFormed) ∧
      parse (join [.quoted (ascii "filename") (ascii "a;b")]) =
        .ok [(ascii "filename", ascii "a"), (ascii "b\"", [])] ∧
      ¬ Recovers [.quoted (ascii "filename") (ascii "a;b")] := by
  have hparse : parse (join [.quoted (ascii "filename") (ascii "a;b")]) =
      .ok [(ascii "filename", ascii "a"), (ascii "b\"", [])] := by decide +kernel
  refine ⟨?_, hparse, ?_⟩
  · intro a ha
    obtain rfl := List.mem_singleton.1 ha
    exact ⟨by decide, by decide, by rintro n t ⟨⟩, by rintro n t ⟨⟩; decide⟩
  · rintro ⟨result, hresult, hperm⟩
    rw [hparse] at hresult
    obtain rfl := Except.ok.inj hresult
    exact absurd hperm.length_eq (by decide)

-- Two errors may make up for each other, so that nothing can be said of a single list.
example : Recovers [.token (ascii "a") [], .token (ascii "b") (ascii "c"),
    .quoted (ascii "a") (ascii "; b=c")] :=
  ⟨[(ascii "a", ascii "; b=c"), (ascii "a", []), (ascii "b", ascii "c")], by decide +kernel,
    by decide +kernel⟩

end SemicolonSeparatedAttributes

end SimpleWeb
