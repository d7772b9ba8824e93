/-
**Query strings.**

A model of `Percent` and of `QueryString` of `common/utility.hpp`.  A query string is written field
by field, `name=value` with `&` between two of them, in the order in which the multimap happens to be
iterated; values are percent-encoded, names are written as they are.  It is read back by one loop
over the positions of the string, which remembers where the current name began and where its `=`
was; the field behind the last `&` is read after the loop.

Main definitions:

* `SimpleWeb.Percent.encode`, `SimpleWeb.Percent.decode`;
* `SimpleWeb.QueryString.create`, `SimpleWeb.QueryString.parse`;
* `SimpleWeb.QueryString.splitAndDecode` — what a query string means.

Main results:

* `SimpleWeb.Percent.decode_encode` — **every value survives percent-encoding**;
* `SimpleWeb.QueryString.parse_split` — **every string is parsed as what it means**;
* `SimpleWeb.QueryString.parse_create` — **a query string is read back as the fields it was created
  from**.
-/

import SimpleWeb.Cut
import SimpleWeb.Strings

set_option relaxedAutoImplicit false
set_option autoImplicit false

namespace SimpleWeb

/-! ### Percent-encoding -/

namespace Percent

/-- The characters that stand for themselves. -/
def isUnreserved (chr : UInt8) : Bool :=
  (48 ≤ chr && chr ≤ 57) || (65 ≤ chr && chr ≤ 90) || (97 ≤ chr && chr ≤ 122) ||
    chr == 45 || chr == 46 || chr == 95 || chr == 126

def hexChars : Bytes := ascii "0123456789ABCDEF"

/-- What the loop of `Percent::encode` adds for one character. -/
def encodeChar (chr : UInt8) : Bytes :=
  if !isUnreserved chr then
    [37, hexChars.getD (chr >>> 4).toNat 0, hexChars.getD (chr &&& 15).toNat 0]
  else [chr]

/-- `Percent::encode`. -/
def encode (value : Bytes) : Bytes := value.flatMap encodeChar

/-- `Percent::decode`.  A `%` with fewer than two characters behind it stands for itself. -/
def decode : Bytes → Bytes
  | chr :: hex₁ :: hex₂ :: rest =>
      if chr = 37 then UInt8.ofInt (strtol 16 [hex₁, hex₂]) :: decode rest
      else (if chr = 43 then 32 else chr) :: decode (hex₁ :: hex₂ :: rest)
  | chr :: rest => (if chr = 43 then 32 else chr) :: decode rest
  | [] => []

/-- The two digits that are written for a character are read back as that character. -/
theorem strtol_hexChars (chr : UInt8) :
    UInt8.ofInt (strtol 16 [hexChars.getD (chr >>> 4).toNat 0, hexChars.getD (chr &&& 15).toNat 0]) =
      chr := by
  have hall : ∀ n < 256, UInt8.ofInt (strtol 16
      [hexChars.getD (UInt8.ofNat n >>> 4).toNat 0, hexChars.getD (UInt8.ofNat n &&& 15).toNat 0]) =
      UInt8.ofNat n := by decide +kernel
  simpa only [UInt8.ofNat_toNat] using hall chr.toNat chr.toNat_lt

/-- An unreserved character is neither of the two that mean something to `decode`, and it does not
separate fields. -/
theorem ne_of_isUnreserved {chr : UInt8} (h : isUnreserved chr = true) :
    chr ≠ 37 ∧ chr ≠ 43 ∧ chr ≠ 38 := by
  refine ⟨?_, ?_, ?_⟩ <;> rintro rfl <;> cases h

/-- A character that means nothing to `decode` is kept, whatever is behind it. -/
theorem decode_cons {chr : UInt8} (hpercent : chr ≠ 37) (hplus : chr ≠ 43) (rest : Bytes) :
    decode (chr :: rest) = chr :: decode rest := by
  match rest with
  | [] | [_] => simp [decode, hplus]
  | _ :: _ :: _ => simp [decode, hpercent, hplus]

/-- What decoding does to each character: a `+` is a space, and a `%` and the two characters behind it
are the byte that they are the hexadecimal number of. -/
structure Rules (decode : Bytes → Bytes) : Prop where
  nil : decode [] = []
  plus : ∀ rest, decode (43 :: rest) = 32 :: decode rest
  percent : ∀ hex₁ hex₂ rest,
    decode (37 :: hex₁ :: hex₂ :: rest) = UInt8.ofInt (strtol 16 [hex₁, hex₂]) :: decode rest
  short : ∀ rest, rest.length < 2 → decode (37 :: rest) = 37 :: decode rest
  other : ∀ chr rest, chr ≠ 37 → chr ≠ 43 → decode (chr :: rest) = chr :: decode rest

theorem rules_decode : Rules decode where
  nil := rfl
  plus := by
    intro rest
    match rest with
    | [] | [_] => simp [decode]
    | _ :: _ :: _ => simp [decode]
  percent := by
    intro hex₁ hex₂ rest
    simp [decode]
  short := by
    intro rest hrest
    match rest with
    | [] | [_] => simp [decode]
    | _ :: _ :: _ => simp at hrest
  other := fun _ rest hpercent hplus => decode_cons hpercent hplus rest

theorem decode_encodeChar (chr : UInt8) (rest : Bytes) :
    decode (encodeChar chr ++ rest) = chr :: decode rest := by
  by_cases h : isUnreserved chr = true
  · obtain ⟨hpercent, hplus, -⟩ := ne_of_isUnreserved h
    simp only [encodeChar, h, Bool.not_true, Bool.false_eq_true, if_false, List.singleton_append]
    exact decode_cons hpercent hplus rest
  · simp only [encodeChar, h, Bool.not_false, if_true, List.cons_append, List.nil_append, decode,
      strtol_hexChars]

/-- **Every value survives percent-encoding.** -/
theorem decode_encode (value : Bytes) : decode (encode value) = value := by
  induction value with
  | nil => rfl
  | cons chr value ih =>
      rw [encode, List.flatMap_cons, decode_encodeChar]
      exact congrArg (chr :: ·) ih

/-- No digit is a separator of fields. -/
theorem hexChars_ne (chr : UInt8) :
    hexChars.getD (chr >>> 4).toNat 0 ≠ 38 ∧ hexChars.getD (chr &&& 15).toNat 0 ≠ 38 := by
  have hall : ∀ n < 256, hexChars.getD (UInt8.ofNat n >>> 4).toNat 0 ≠ 38 ∧
      hexChars.getD (UInt8.ofNat n &&& 15).toNat 0 ≠ 38 := by decide +kernel
  simpa only [UInt8.ofNat_toNat] using hall chr.toNat chr.toNat_lt

/-- An encoded value does not separate fields. -/
theorem not_mem_encode (value : Bytes) : 38 ∉ encode value := by
  intro h
  obtain ⟨chr, -, hchr⟩ := List.mem_flatMap.1 h
  by_cases hun : isUnreserved chr = true
  · obtain ⟨-, -, hne⟩ := ne_of_isUnreserved hun
    simp only [encodeChar, hun, Bool.not_true, Bool.false_eq_true, if_false,
      List.mem_singleton] at hchr
    exact hne hchr.symm
  · obtain ⟨hhigh, hlow⟩ := hexChars_ne chr
    simp only [encodeChar, hun, Bool.not_false, if_true, List.mem_cons, List.not_mem_nil,
      or_false] at hchr
    rcases hchr with hchr | hchr | hchr
    · cases hchr
    · exact hhigh hchr.symm
    · exact hlow hchr.symm

end Percent

/-! ### Fields -/

namespace QueryString

/-- `QueryString::create`; the flag is `first`. -/
def create (order : Order) (fields : CaseInsensitiveMultimap) : Bytes :=
  ((order.elements fields).foldl
    (fun (out : Bytes × Bool) field =>
      (out.1 ++ ((if !out.2 then [38] else []) ++ field.1 ++ [61] ++ Percent.encode field.2), false))
    ([], true)).1

/-- What the loop of `parse` remembers; a position of `npos` is `none`. -/
structure Scan where
  namePos : ℕ
  nameEndPos : Option ℕ
  valuePos : Option ℕ
  result : CaseInsensitiveMultimap
  deriving DecidableEq, Repr

/-- The body of the loop. -/
def scan (queryString : Bytes) (s : Scan) (c : ℕ) : Except Fault Scan := do
  let chr ← charAt queryString c
  if chr = 38 then
    let name ← substr queryString s.namePos (sizeSub (s.nameEndPos.getD c) s.namePos)
    if name ≠ [] then
      let value ← match s.valuePos with
        | none => .ok []
        | some valuePos => substr queryString valuePos (sizeSub c valuePos)
      return ⟨c + 1, none, none, emplace s.result name (Percent.decode value)⟩
    else return ⟨c + 1, none, none, s.result⟩
  else if chr = 61 ∧ s.nameEndPos = none then
    return { s with nameEndPos := some c, valuePos := some (c + 1) }
  else return s

/-- What follows the loop: the field that no `&` ends. -/
def lastField (queryString : Bytes) (s : Scan) : Except Fault CaseInsensitiveMultimap := do
  if s.namePos < queryString.length then
    let name ← substr queryString s.namePos
      (match s.nameEndPos with
        | none => queryString.length
        | some nameEndPos => sizeSub nameEndPos s.namePos)
    if name ≠ [] then
      let value ← match s.valuePos with
        | none => .ok []
        | some valuePos =>
            if valuePos ≥ queryString.length then .ok []
            else substr queryString valuePos queryString.length
      return emplace s.result name (Percent.decode value)
    else return s.result
  else return s.result

/-- `QueryString::parse`. -/
def parse (queryString : Bytes) : Except Fault CaseInsensitiveMultimap :=
  if queryString = [] then .ok []
  else do
    let s ← (List.range queryString.length).foldlM (scan queryString) ⟨0, none, none, []⟩
    lastField queryString s

/-! #### Pieces -/

/-- The field that a piece of a query string stands for: its name is what is in front of the first
`=`, and a piece without a name stands for no field. -/
def pieceField (piece : Bytes) : Option (Bytes × Bytes) :=
  if Cut.before 61 piece = [] then none
  else some (Cut.before 61 piece, Percent.decode ((Cut.after 61 piece).getD []))

/-- A query string split at every `&`, and its pieces decoded. -/
def splitAndDecode (queryString : Bytes) : CaseInsensitiveMultimap :=
  (queryString.splitOn 38).filterMap pieceField

/-- The state of the loop behind a part of a piece that has been cut at its `=`. -/
def Scan.behind (pos : ℕ) (name : Bytes) (value : Option Bytes)
    (result : CaseInsensitiveMultimap) : Scan :=
  ⟨pos, value.map fun _ => pos + name.length, value.map fun _ => pos + name.length + 1, result⟩

theorem pieceField_join {name : Bytes} (h : 61 ∉ name) (value : Option Bytes) :
    pieceField (Cut.join 61 name value) =
      if name = [] then none else some (name, Percent.decode (value.getD [])) := by
  rw [pieceField, Cut.before_join h, Cut.after_join h]

section piece

variable {queryString before after name : Bytes} {value : Option Bytes}

/-- Characters that neither end the piece nor its name leave the state as it is. -/
theorem scan_chars {chars : Bytes} {s : Scan} (hamp : 38 ∉ chars)
    (heq : 61 ∈ chars → s.nameEndPos ≠ none) (hstring : queryString = before ++ (chars ++ after)) :
    (List.range' before.length chars.length).foldlM (scan queryString) s = .ok s := by
  refine foldlM_ignored hstring ?_
  intro chr hmem i hchar
  have hne : ¬ chr = 38 := fun h => hamp (h ▸ hmem)
  have hname : ¬ (chr = 61 ∧ s.nameEndPos = none) := by
    rintro ⟨rfl, hnone⟩
    exact heq hmem hnone
  simp only [scan, hchar, ok_bind, if_neg hne, if_neg hname, pure_eq_ok]

/-- The positions of one piece: behind it the loop knows where its name ends and its value begins. -/
theorem scan_piece (hname : 61 ∉ name) (hamp : 38 ∉ Cut.join 61 name value)
    (result : CaseInsensitiveMultimap)
    (hstring : queryString = before ++ (Cut.join 61 name value ++ after)) :
    (List.range' before.length (Cut.join 61 name value).length).foldlM (scan queryString)
        ⟨before.length, none, none, result⟩ =
      .ok (.behind before.length name value result) := by
  cases value with
  | none => exact scan_chars hamp (fun hmem => absurd hmem hname) hstring
  | some value =>
      obtain ⟨hampName, hampValue⟩ : 38 ∉ name ∧ 38 ∉ value := by simpa using hamp
      have hlen : (Cut.join 61 name (some value)).length = name.length + (value.length + 1) := by
        simp
      have hfull : queryString = before ++ (name ++ (61 :: (value ++ after))) := by
        rw [hstring]
        simp
      have hfirst := @scan_chars queryString before (61 :: (value ++ after)) name
        ⟨before.length, none, none, result⟩ hampName (fun hmem => absurd hmem hname) hfull
      have hchar : charAt queryString (before.length + name.length) = .ok 61 := by
        rw [hfull, ← List.append_assoc]
        exact charAt_append (before ++ name) _ 61 (by simp)
      have hsign : scan queryString ⟨before.length, none, none, result⟩
          (before.length + name.length) = .ok (.behind before.length name (some value) result) := by
        simp only [scan, hchar, ok_bind, if_neg (show ¬ (61 : UInt8) = 38 by decide), and_self,
          if_true, pure_eq_ok]
        rfl
      have hsecond := @scan_chars queryString (before ++ name ++ [61]) after value
        (.behind before.length name (some value) result) hampValue
        (fun _ => by simp [Scan.behind]) (by rw [hfull]; simp)
      have hpos : (before ++ name ++ [61]).length = before.length + name.length + 1 := by
        simp
        omega
      rw [hpos] at hsecond
      rw [hlen, Loop.range'_add, hfirst, ok_bind, Loop.range'_succ, hsign, ok_bind]
      exact hsecond

/-- The name lies between the positions that the loop has found. -/
theorem substr_name (hstring : queryString = before ++ (Cut.join 61 name value ++ after)) :
    substr queryString before.length (sizeSub (before.length + name.length) before.length) =
      .ok name := by
  obtain ⟨t, ht⟩ := Cut.exists_join_eq_append 61 name value
  rw [ht, List.append_assoc] at hstring
  exact substr_between hstring rfl rfl

/-- An `&` behind a piece adds its field. -/
theorem scan_ampersand (hname : 61 ∉ name) (result : CaseInsensitiveMultimap)
    (hstring : queryString = before ++ (Cut.join 61 name value ++ 38 :: after)) :
    scan queryString (.behind before.length name value result)
        (before.length + (Cut.join 61 name value).length) =
      .ok ⟨before.length + (Cut.join 61 name value).length + 1, none, none,
        result ++ (pieceField (Cut.join 61 name value)).toList⟩ := by
  have hbehind : queryString = (before ++ Cut.join 61 name value) ++ 38 :: after := by
    rw [hstring, List.append_assoc]
  have hchar : charAt queryString (before.length + (Cut.join 61 name value).length) = .ok 38 :=
    charAt_of_eq hbehind (by simp)
  have hsub := substr_name hstring
  rw [pieceField_join hname]
  cases value with
  | none =>
      simp only [Cut.join_none] at hchar
      simp only [scan, Scan.behind, hchar, ok_bind, if_true, Option.map_none, Option.getD_none,
        hsub, pure_eq_ok, Cut.join_none]
      by_cases hnil : name = [] <;> simp [hnil, emplace]
  | some value =>
      have hvalue : substr queryString (before.length + name.length + 1)
          (sizeSub (before.length + (name ++ 61 :: value).length)
            (before.length + name.length + 1)) = .ok value := by
        have hfull : queryString = before ++ name ++ [61] ++ (value ++ 38 :: after) := by
          rw [hstring]
          simp
        refine substr_between hfull ?_ ?_
        · simp only [List.length_append, List.length_singleton]
        · simp only [List.length_append, List.length_cons]
          omega
      simp only [Cut.join_some] at hchar
      simp only [scan, Scan.behind, hchar, ok_bind, if_true, Option.map_some, Option.getD_some,
        hsub, hvalue, pure_eq_ok, Cut.join_some]
      by_cases hnil : name = [] <;> simp [hnil, emplace]

/-- The last piece is added behind the loop. -/
theorem lastField_piece (hname : 61 ∉ name) (result : CaseInsensitiveMultimap)
    (hstring : queryString = before ++ Cut.join 61 name value) :
    lastField queryString (.behind before.length name value result) =
      .ok (result ++ (pieceField (Cut.join 61 name value)).toList) := by
  have hsub := @substr_name queryString before [] name value (by simpa using hstring)
  rw [pieceField_join hname]
  cases value with
  | none =>
      by_cases hnil : name = []
      · -- the string ends with an `&`
        simp [lastField, Scan.behind, hstring, hnil]
      · have hall : substr queryString before.length queryString.length = .ok name := by
          rw [substr_of_le (by simp [hstring]), List.take_of_length_le (by simp), hstring,
            Cut.join_none, List.drop_left]
        have hlt : before.length < queryString.length := by
          simp [hstring, List.length_pos_iff.2 hnil]
        simp [lastField, Scan.behind, hlt, hall, hnil, emplace]
  | some value =>
      have hlen : queryString.length = before.length + name.length + 1 + value.length := by
        rw [hstring]
        simp
        omega
      have hlt : before.length < queryString.length := by omega
      simp only [lastField, Scan.behind, if_pos hlt, Option.map_some, hsub, ok_bind, pure_eq_ok,
        Option.getD_some]
      by_cases hempty : before.length + name.length + 1 ≥ queryString.length
      · obtain rfl : value = [] := List.length_eq_zero_iff.1 (by omega)
        by_cases hnil : name = [] <;> simp [hnil, hempty, emplace]
      · have hvalue : substr queryString (before.length + name.length + 1) queryString.length =
            .ok value := by
          have hfull : queryString = before ++ name ++ [61] ++ value := by
            rw [hstring]
            simp
          rw [substr_of_le (by omega), List.take_of_length_le (by simp), hfull,
            List.drop_left' (by simp; omega)]
        rw [if_neg hempty, hvalue, ok_bind]
        by_cases hnil : name = [] <;> simp [hnil, emplace]

end piece

/-! #### The whole string -/

/-- The loop and what follows it, from the beginning of a piece: by induction on the pieces that are
still to be read. -/
theorem scan_pieces {queryString before piece : Bytes} {pieces : List Bytes}
    (h : ∀ p ∈ piece :: pieces, 38 ∉ p) (result : CaseInsensitiveMultimap)
    (hstring : queryString = before ++ (piece ++ pieces.flatMap (38 :: ·))) :
    ((List.range' before.length (piece ++ pieces.flatMap (38 :: ·)).length).foldlM
        (scan queryString) ⟨before.length, none, none, result⟩ >>= lastField queryString) =
      .ok (result ++ (piece :: pieces).filterMap pieceField) := by
  obtain ⟨name, value, hname, hpiece⟩ := Cut.exists_join 61 piece
  have hamp := h piece (by simp)
  induction pieces generalizing before piece name value result with
  | nil =>
      have hsegment := @scan_piece queryString before [] name value hname (hpiece ▸ hamp) result
        (by rw [hstring, hpiece]; simp)
      have hlast := @lastField_piece queryString before name value hname result
        (by rw [hstring, hpiece]; simp)
      rw [List.flatMap_nil, List.append_nil, hpiece, hsegment, ok_bind, hlast]
      cases hfield : pieceField (Cut.join 61 name value) <;> simp [hfield]
  | cons next pieces ih =>
      obtain ⟨name', value', hname', hnext⟩ := Cut.exists_join 61 next
      have hrest : (next :: pieces).flatMap (38 :: ·) = 38 :: (next ++ pieces.flatMap (38 :: ·)) := by
        simp
      rw [hrest, hpiece] at hstring
      have hsegment := scan_piece hname (hpiece ▸ hamp) result hstring
      have hsep := scan_ampersand hname result hstring
      have htail := @ih (before ++ Cut.join 61 name value ++ [38]) next
        (fun p hp => h p (List.mem_cons_of_mem _ hp))
        (result ++ (pieceField (Cut.join 61 name value)).toList) (by rw [hstring]; simp) name' value'
        hname' hnext (h next (by simp))
      have hpos : (before ++ Cut.join 61 name value ++ [38]).length =
          before.length + (Cut.join 61 name value).length + 1 := by
        simp
        omega
      rw [hpos] at htail
      rw [hrest, hpiece, List.length_append, Loop.range'_add, hsegment, ok_bind, List.length_cons,
        Loop.range'_succ, hsep, ok_bind, htail]
      cases hfield : pieceField (Cut.join 61 name value) <;> simp [hfield]

/-- The parser computes the reference. -/
theorem parse_eq (queryString : Bytes) : parse queryString = .ok (splitAndDecode queryString) := by
  by_cases hempty : queryString = []
  · subst hempty
    rfl
  · obtain ⟨piece, pieces, hsplit, hstring, hnot⟩ := Cut.flatMap_splitOn 38 queryString
    have hscan := @scan_pieces queryString [] piece pieces hnot [] hstring
    rw [← hstring, List.nil_append] at hscan
    rw [parse, if_neg hempty, List.range_eq_range', splitAndDecode, hsplit]
    exact hscan

/-- **Parsing is splitting and decoding**, for every byte string: the string is split at each `&`,
each piece at its first `=`, pieces without a name are dropped, and the values are decoded. -/
theorem parse_split (queryString : Bytes) :
    Percent.Rules Percent.decode ∧
      ∃ result, parse queryString = .ok result ∧
        result.Perm ((queryString.splitOn 38).filterMap fun piece =>
          if Cut.before 61 piece = [] then none
          else some (Cut.before 61 piece, Percent.decode ((Cut.after 61 piece).getD []))) :=
  ⟨Percent.rules_decode, _, parse_eq queryString, List.Perm.refl _⟩

/-! #### Strings that have been created -/

/-- A field as it is written. -/
def writeField (field : Bytes × Bytes) : Bytes := field.1 ++ 61 :: Percent.encode field.2

/-- What is written behind a field that is not the last. -/
def writeRest (fields : CaseInsensitiveMultimap) : Bytes :=
  fields.flatMap fun field => 38 :: writeField field

/-- A name that can be told from the rest of the query string. -/
structure Plain (field : Bytes × Bytes) : Prop where
  ne_nil : field.1 ≠ []
  no_ampersand : 38 ∉ field.1
  no_equals : 61 ∉ field.1

theorem foldl_create (fields : CaseInsensitiveMultimap) (result : Bytes) :
    (fields.foldl
      (fun (out : Bytes × Bool) field =>
        (out.1 ++ ((if !out.2 then [38] else []) ++ field.1 ++ [61] ++ Percent.encode field.2),
          false))
      (result, false)).1 = result ++ writeRest fields := by
  induction fields generalizing result with
  | nil => simp [writeRest]
  | cons field fields ih =>
      rw [List.foldl_cons, ih]
      simp [writeRest, writeField]

theorem create_nil {order : Order} {fields : CaseInsensitiveMultimap}
    (h : order.elements fields = []) : create order fields = [] := by
  simp [create, h]

theorem create_cons {order : Order} {fields rest : CaseInsensitiveMultimap} {field : Bytes × Bytes}
    (h : order.elements fields = field :: rest) :
    create order fields = writeField field ++ writeRest rest := by
  rw [create, h, List.foldl_cons]
  refine (foldl_create rest _).trans ?_
  simp [writeField]

/-- A field is a piece of its own. -/
theorem not_mem_writeField {field : Bytes × Bytes} (h : Plain field) : 38 ∉ writeField field := by
  simp [writeField, h.no_ampersand, Percent.not_mem_encode]

/-- A field is read back from its piece. -/
theorem pieceField_writeField {field : Bytes × Bytes} (h : Plain field) :
    pieceField (writeField field) = some field := by
  have hjoin := pieceField_join h.no_equals (some (Percent.encode field.2))
  rw [if_neg h.ne_nil, Option.getD_some, Percent.decode_encode] at hjoin
  exact hjoin

/-- A created string is split into its fields. -/
theorem splitAndDecode_write {field : Bytes × Bytes} {fields : CaseInsensitiveMultimap}
    (h : ∀ f ∈ field :: fields, Plain f) :
    splitAndDecode (writeField field ++ writeRest fields) = field :: fields := by
  have hnot : ∀ p ∈ writeField field :: fields.map writeField, 38 ∉ p := by
    intro p hp
    rw [← List.map_cons] at hp
    obtain ⟨f, hf, rfl⟩ := List.mem_map.1 hp
    exact not_mem_writeField (h f hf)
  have hsplit := Cut.splitOn_flatMap hnot
  rw [List.flatMap_map] at hsplit
  rw [splitAndDecode, writeRest, hsplit, ← List.map_cons, List.filterMap_map]
  refine (List.filterMap_congr fun f hf => ?_).trans List.filterMap_some
  exact pieceField_writeField (h f hf)

/-- **A query string is read back as the fields it was created from**: the same fields, with every
byte of their values, in whatever order the library iterates the multimap. -/
theorem parse_create (order : Order) {fields : CaseInsensitiveMultimap}
    (h : ∀ field ∈ fields, field.1 ≠ [] ∧ 38 ∉ field.1 ∧ 61 ∉ field.1) :
    ∃ result, parse (create order fields) = .ok result ∧ result.Perm fields := by
  refine ⟨order.elements fields, ?_, order.2 fields⟩
  have hplain : ∀ field ∈ order.elements fields, Plain field := by
    intro field hfield
    obtain ⟨hne, hamp, heq⟩ := h field (order.mem_elements.1 hfield)
    exact ⟨hne, hamp, heq⟩
  cases helements : order.elements fields with
  | nil =>
      rw [create_nil helements]
      rfl
  | cons field rest =>
      rw [helements] at hplain
      rw [create_cons helements, parse_eq, splitAndDecode_write hplain]

/-- A value of separators, with a byte above 127 and a NUL among them. -/
theorem parse_create_separators :
    ∃ result, parse (create .insertion [(ascii "a", [0, 37, 43, 38, 61, 200]), (ascii "A", [])]) =
        .ok result ∧
      result.Perm [(ascii "a", [0, 37, 43, 38, 61, 200]), (ascii "A", [])] :=
  parse_create .insertion (by decide)

end QueryString

end SimpleWeb
