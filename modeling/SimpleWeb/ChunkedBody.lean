/-
**A content that is sent in chunks.**

A chunk is a line with its size, its bytes, and a line end.  A size is read from a buffer that may hold
any part of what follows it: less than the bytes of the chunk, all of them but not the whole line end,
or more.  In each case the bytes are put behind the content, the line end is removed, and the next size
is at the front of what is left.  An extension that the line has behind the size is passed over, if
there is room for the line in the buffer.

Main definitions:

* `SimpleWeb.Chunk`, `SimpleWeb.encodeChunks`, `SimpleWeb.contentOf` — chunks, how they are sent, and
  what they hold;
* `SimpleWeb.ExtendedChunk` — a chunk whose line may be longer;
* `SimpleWeb.chunksFar` — how far the stream has been read behind some chunks;
* `SimpleWeb.ChunkedHead` — a head that announces them.

Main results:

* `SimpleWeb.ServerBase.leads_onChunk` — **a chunk is put behind the content**, on each of the routes,
  and how far the stream has been read then;
* `SimpleWeb.ServerBase.leads_chunks` — and so are all of them;
* `SimpleWeb.ServerBase.chunked_content` — **the content is what was sent**, in whatever pieces.
-/

import SimpleWeb.ChunkLimit
import SimpleWeb.RequestHead

set_option relaxedAutoImplicit false
set_option autoImplicit false

namespace SimpleWeb

/-! ### Chunks -/

/-- A chunk, and the hexadecimal digits of its size. -/
structure Chunk where
  digits : Bytes
  data : Bytes
  digits_ne_nil : digits ≠ []
  length_digits : digits.length ≤ 16
  isDigit : ∀ c ∈ digits, isDigit 16 c = true
  value : digitsValue 16 digits = data.length
  data_ne_nil : data ≠ []

def Chunk.encode (c : Chunk) : Bytes := c.digits ++ crlf ++ (c.data ++ crlf)

/-- The chunks, and the last one, which is empty. -/
def encodeChunks (cs : List Chunk) : Bytes := cs.flatMap Chunk.encode ++ (ascii "0" ++ crlf ++ crlf)

def contentOf (cs : List Chunk) : Bytes := cs.flatMap Chunk.data

/-- A chunk with any number of digits, behind which its line may have an extension: a semicolon, or
white space, and more. -/
structure ExtendedChunk where
  digits : Bytes
  extension : Bytes
  data : Bytes
  digits_ne_nil : digits ≠ []
  isDigit : ∀ c ∈ digits, isDigit 16 c = true
  value : digitsValue 16 digits = data.length
  behind_digits : ∀ c ∈ extension.head?, c = 9 ∨ c = 32 ∨ c = 59
  cr_extension : 13 ∉ extension
  lf_extension : 10 ∉ extension
  data_ne_nil : data ≠ []

def ExtendedChunk.line (c : ExtendedChunk) : Bytes := c.digits ++ c.extension

def ExtendedChunk.encode (c : ExtendedChunk) : Bytes := c.line ++ crlf ++ (c.data ++ crlf)

def bodyOf (cs : List ExtendedChunk) : Bytes := cs.flatMap ExtendedChunk.data

/-- A chunk without an extension. -/
def Chunk.extended (c : Chunk) : ExtendedChunk where
  digits := c.digits
  extension := []
  data := c.data
  digits_ne_nil := c.digits_ne_nil
  isDigit := c.isDigit
  value := c.value
  behind_digits := by simp
  cr_extension := List.not_mem_nil
  lf_extension := List.not_mem_nil
  data_ne_nil := c.data_ne_nil

/-- The size of the buffer that the lines are read into: there is room for a size of 16 digits, or for
all that has been read along with the head. -/
def sizeBuffer (maxSize : ℕ) (pieces : List Bytes) (head : Bytes) : ℕ :=
  max (16 + 2) (readFar pieces maxSize 0 0 head.length - head.length)

/-- How far the stream has been read behind some chunks, the first of which begins at `start`: the line
of each one is read into a buffer of the given size, and then what is missing of its bytes. -/
def chunksFar (pieces : List Bytes) (size : ℕ) : ℕ → ℕ → List ExtendedChunk → ℕ
  | _, far, [] => far
  | start, far, c :: cs =>
      chunksFar pieces size (start + c.encode.length)
        (max (readFar pieces size start far (start + (c.line.length + 2))) (start + c.encode.length)) cs

/-- A head that announces chunks, and no length. -/
structure ChunkedHead (head : Bytes) (request : RequestMessage) : Prop
    extends RequestHead head request where
  no_contentLength : ∀ f ∈ request.header, ¬ Named (ascii "Content-Length") f
  transferEncoding : ∃ f ∈ request.header, Named (ascii "Transfer-Encoding") f
  chunked : ∀ f ∈ request.header, Named (ascii "Transfer-Encoding") f → f.2 = ascii "chunked"

/-- A digit is no part of a line end. -/
theorem not_mem_digits {digits : Bytes} (h : ∀ c ∈ digits, isDigit 16 c = true) {c : UInt8}
    (hc : c < 48) : c ∉ digits := by
  intro hmem
  have hdigit := h c hmem
  rw [not_isDigit_of_lt (by omega) hc] at hdigit
  cases hdigit

theorem Chunk.line_extended (c : Chunk) : c.extended.line = c.digits := List.append_nil c.digits

theorem flatMap_extended (cs : List Chunk) :
    (cs.map Chunk.extended).flatMap ExtendedChunk.encode = cs.flatMap Chunk.encode := by
  have hencode : ∀ c : Chunk, c.extended.encode = c.encode := by
    intro c
    rw [ExtendedChunk.encode, c.line_extended]
    rfl
  simp only [List.flatMap_map, hencode]

theorem bodyOf_extended (cs : List Chunk) : bodyOf (cs.map Chunk.extended) = contentOf cs := by
  rw [bodyOf, List.flatMap_map]
  rfl

theorem ExtendedChunk.cr_line (c : ExtendedChunk) : 13 ∉ c.line := by
  simp [ExtendedChunk.line, not_mem_digits c.isDigit (c := 13) (by decide), c.cr_extension]

theorem ExtendedChunk.lf_line (c : ExtendedChunk) : 10 ∉ c.line := by
  simp [ExtendedChunk.line, not_mem_digits c.isDigit (c := 10) (by decide), c.lf_extension]

theorem ExtendedChunk.length_encode (c : ExtendedChunk) :
    c.encode.length = c.line.length + 2 + (c.data.length + 2) := by
  simp only [ExtendedChunk.encode, List.length_append, show crlf.length = 2 from rfl]

/-- The number ends where the extension, or the line end, begins. -/
theorem ExtendedChunk.strtoull_line (c : ExtendedChunk) (h : c.data.length < 2 ^ 64) :
    strtoull 16 (c.line ++ [13]) = some (UInt64.ofNat c.data.length) := by
  have hbehind : ∀ b ∈ (c.extension ++ [13]).head?,
      SimpleWeb.isDigit 16 b = false ∧ tolower b ≠ 120 := by
    intro b hb
    obtain hb : b = 13 ∨ b = 9 ∨ b = 32 ∨ b = 59 := by
      cases hextension : c.extension with
      | nil =>
          rw [hextension] at hb
          exact Or.inl (by simpa using hb.symm)
      | cons a extension =>
          rw [hextension] at hb
          refine Or.inr (c.behind_digits b ?_)
          rw [hextension]
          exact hb
    rcases hb with rfl | rfl | rfl | rfl <;> decide
  rw [← c.value, ExtendedChunk.line, List.append_assoc]
  exact strtoull_digits_append le_rfl c.digits_ne_nil c.isDigit (by rwa [c.value]) hbehind

namespace ServerBase

/-- A session with the given content, buffer of chunk sizes, and outstanding read. -/
def Session.holding (s : Session) (content buffer : Bytes) (reading : Option ReadOp) : Session :=
  { s with streambuf := content, chunkSizeStreambuf := buffer, reading }

variable {members : Members} {config : Config} {order : Order} {s : Session}
  {content buffer rest : Bytes} {pieces : List Bytes}

/-! ### The reads of one chunk -/

section lines

variable {stream : List Bytes} {start : ℕ} {line : Bytes}

/-- The line with a size is read, and perhaps more. -/
theorem readStep_chunkSize (hcr : 13 ∉ line) (hsize : line.length + 2 ≤ s.chunkSizeMaxSize)
    (h : Unread stream s.chunkSizeMaxSize start (line ++ (crlf ++ rest)) buffer pieces) :
    ∃ surplus pieces',
      Unread stream s.chunkSizeMaxSize (start + (line.length + 2)) rest surplus pieces' ∧
      start + (line.length + 2) + surplus.length = readFar stream s.chunkSizeMaxSize start
        (start + buffer.length) (start + (line.length + 2)) ∧
      readStep members config order (s.holding content buffer (some .chunkSize), pieces) =
        some ((s.holding content (line ++ (crlf ++ surplus)) none).onChunkSize members config order
          (line.length + 2), pieces') := by
  have hend : ∀ t, endOf crlf (line ++ (crlf ++ t)) = some (line.length + 2) :=
    fun t => endOf_behind hcr t
  have hline : (line ++ crlf).length = line.length + 2 := List.length_append
  obtain ⟨data, pieces', hread, hunread, hle, hfar⟩ :=
    h.until_found ErrorCode.notFound (by decide) (hend rest) hsize
  -- what is in the buffer now begins with the line
  rw [← List.append_assoc] at hunread
  obtain ⟨surplus, hsurplus⟩ := hunread.eq_append (hline.trans_le hle)
  have hcomplete : (s.holding content buffer (some .chunkSize)).complete members config order true
      ⟨none, data⟩ = (s.holding content (buffer ++ data) none).onChunkSize members config order
        ((endOf crlf (buffer ++ data)).getD 0) := rfl
  rw [hsurplus] at hunread hfar hcomplete
  have hbehind := hunread.consume
  rw [List.append_assoc, hend, Option.getD_some] at hcomplete
  rw [List.length_append, ← Nat.add_assoc, hline] at hfar
  rw [hline] at hbehind
  have hdeliver : (s.holding content buffer (some .chunkSize)).deliver config pieces .chunkSize =
      some (⟨none, data⟩, pieces') := hread
  exact ⟨surplus, pieces', hbehind, hfar, by rw [readStep_eq rfl hdeliver, hcomplete]⟩

/-- A line for which there is no room is not read, and nothing is done with the request. -/
theorem readStep_long (hcr : 13 ∉ line) (hsize : s.chunkSizeMaxSize < line.length + 2)
    (h : Unread stream s.chunkSizeMaxSize start (line ++ (crlf ++ rest)) buffer pieces) :
    ∃ buffer' pieces',
      readStep members config order (s.holding content buffer (some .chunkSize), pieces) =
        some ((s.holding content buffer' none).onError members .notFound, pieces') := by
  have hend : endOf crlf (buffer ++ pieces.flatten) = some (line.length + 2) := by
    rw [h.flatten]
    exact endOf_behind hcr rest
  obtain ⟨data, pieces', hread⟩ := @readUntil_full _ ErrorCode _ crlf buffer s.chunkSizeMaxSize _
    .notFound pieces hend hsize h.fits
  have hdeliver : (s.holding content buffer (some .chunkSize)).deliver config pieces .chunkSize =
      some (⟨some .notFound, data⟩, pieces') := hread
  exact ⟨buffer ++ data, pieces', readStep_eq rfl hdeliver⟩

/-- The missing bytes of a chunk are read. -/
theorem readStep_chunk {data : Bytes} (hpieces : pieces.flatten = data ++ rest)
    (hroom : content.length + data.length ≤ config.maxRequestStreambufSize.toNat) :
    ∃ pieces', pieces'.flatten = rest ∧ Leaves pieces data.length pieces' ∧
      readStep members config order
          (s.holding content buffer (some (.chunk data.length)), pieces) =
        some (s.holding (content ++ data) buffer (some (.chunkEnd 2)), pieces') := by
  obtain ⟨pieces', hrest, hleaves, hdeliver⟩ := @Session.deliver_exact config
    (s.holding content buffer (some (.chunk data.length))) _ data rest (Or.inr rfl) hroom _ hpieces
  exact ⟨pieces', hrest, hleaves, readStep_eq rfl hdeliver⟩

/-- The missing part of a line end is read, and not kept. -/
theorem readStep_chunkEnd {data : Bytes} (hpieces : pieces.flatten = data ++ rest)
    (hdata : data.length ≤ 2) :
    ∃ pieces', pieces'.flatten = rest ∧ Leaves pieces data.length pieces' ∧
      readStep members config order
          (s.holding content buffer (some (.chunkEnd data.length)), pieces) =
        some (s.holding content buffer (some .chunkSize), pieces') := by
  obtain ⟨pieces', htake, hrest⟩ := takeExactly_front hpieces
  have hdeliver : (s.holding content buffer (some (.chunkEnd data.length))).deliver config pieces
      (.chunkEnd data.length) = some (⟨none, data⟩, pieces') := by
    show (takeExactly pieces (min data.length 2)).map _ = _
    rw [min_eq_left hdata, htake]
    rfl
  exact ⟨pieces', hrest, takeExactly_leaves htake, readStep_eq rfl hdeliver⟩

end lines

/-! ### The handler of the read of a size -/

section onChunkSize

variable {surplus data : Bytes}

/-- A line that begins with a size. -/
theorem onChunkSize_sized {line : Bytes} (hlf : 10 ∉ line) {size : UInt64}
    (hsize : strtoull 16 (line ++ [13]) = some size) :
    (s.holding content (line ++ (crlf ++ surplus)) none).onChunkSize members config order
        (line.length + 2) =
      if size = 0 then (s.holding content surplus none).findResource members order
      else if size + UInt64.ofNat content.length > config.maxRequestStreambufSize then
        (s.holding content surplus none).payloadTooLarge members
      else (s.holding content surplus none).onChunk config size surplus.length := by
  have hline : getline (line ++ (crlf ++ surplus)) = some (line ++ [13], surplus) := by
    have hget := @getline_append (line ++ [13]) (by simp [hlf]) surplus
    rwa [List.append_assoc] at hget
  have hmoved : sizeSub (line.length + 2) ((line ++ [13]).length + 1) = 0 := by
    rw [sizeSub_of_le (by simp), List.length_append, List.length_singleton, Nat.sub_self]
  have heq := @onChunkSize_line members config order
    (s.holding content (line ++ (crlf ++ surplus)) none) _ _ hline (line.length + 2)
  rw [hsize] at heq
  dsimp only at heq
  rw [hmoved, sizeSub_of_le (Nat.zero_le _), Nat.sub_zero] at heq
  exact heq

/-- A chunk for which there is room. -/
theorem onChunkSize_chunk {c : ExtendedChunk}
    (hroom : content.length + c.data.length ≤ config.maxRequestStreambufSize.toNat) :
    (s.holding content (c.line ++ (crlf ++ surplus)) none).onChunkSize members config order
        (c.line.length + 2) =
      (s.holding content surplus none).onChunk config (UInt64.ofNat c.data.length)
        surplus.length := by
  have hmax := config.maxRequestStreambufSize.toNat_lt
  have hpos := List.length_pos_of_ne_nil c.data_ne_nil
  have hnat : (UInt64.ofNat c.data.length).toNat = c.data.length := by
    rw [UInt64.toNat_ofNat', Nat.mod_eq_of_lt (by omega)]
  have hnonzero : UInt64.ofNat c.data.length ≠ 0 := by
    intro hzero
    rw [hzero, UInt64.toNat_zero] at hnat
    omega
  have hsmall : ¬ UInt64.ofNat c.data.length + UInt64.ofNat content.length >
      config.maxRequestStreambufSize := by
    rw [gt_iff_lt, UInt64.lt_iff_toNat_lt, UInt64.toNat_add, hnat, UInt64.toNat_ofNat',
      Nat.add_mod_mod, Nat.mod_eq_of_lt (by omega)]
    omega
  rw [onChunkSize_sized c.lf_line (c.strtoull_line (by omega)), if_neg hnonzero, if_neg hsmall]

/-- Less than the chunk is there: the rest of it is read. -/
theorem onChunk_less {chunkSize : UInt64} (hsize : chunkSize.toNat = (surplus ++ data).length)
    (hdata : data ≠ [])
    (hroom : content.length + chunkSize.toNat ≤ config.maxRequestStreambufSize.toNat) :
    (s.holding content surplus none).onChunk config chunkSize surplus.length =
      s.holding (content ++ surplus) [] (some (.chunk data.length)) := by
  have hpos := List.length_pos_of_ne_nil hdata
  rw [List.length_append] at hsize
  have hmove : min chunkSize.toNat surplus.length = surplus.length := by omega
  have hmissing : chunkSize.toNat - surplus.length = data.length := by omega
  unfold Session.onChunk
  simp only [Session.holding, hmove, hmissing, List.take_length, List.drop_length]
  rw [if_neg (by omega), if_pos (by omega)]

/-- The chunk is there, and not all of its line end, of which the rest is read. -/
theorem onChunk_between {chunkSize : UInt64} (hsize : chunkSize.toNat = data.length)
    {ending : Bytes} (hending : ending.length < 2)
    (hroom : content.length + chunkSize.toNat ≤ config.maxRequestStreambufSize.toNat) :
    (s.holding content (data ++ ending) none).onChunk config chunkSize (data ++ ending).length =
      s.holding (content ++ data) [] (some (.chunkEnd (2 - ending.length))) := by
  have hmove : min chunkSize.toNat (data ++ ending).length = data.length := by
    rw [List.length_append]
    omega
  have hmissing : 2 + chunkSize.toNat - (data ++ ending).length = 2 - ending.length := by
    rw [List.length_append]
    omega
  unfold Session.onChunk
  simp only [Session.holding, hmove, hmissing, List.take_left, List.drop_left]
  rw [List.length_append, if_neg (by omega), if_neg (by omega), if_pos (by omega)]
  -- the one byte of the line end that may be there is dropped
  have hdrop : (if 2 - ending.length = 1 then ending.drop 1 else ending) = [] := by
    split
    · exact List.drop_of_length_le (by omega)
    · exact List.eq_nil_of_length_eq_zero (by omega)
  rw [hdrop]

/-- The chunk and its line end are there. -/
theorem onChunk_more {chunkSize : UInt64} (hsize : chunkSize.toNat = data.length)
    (hsurplus : 2 ≤ surplus.length)
    (hroom : content.length + chunkSize.toNat ≤ config.maxRequestStreambufSize.toNat) :
    (s.holding content (data ++ surplus) none).onChunk config chunkSize (data ++ surplus).length =
      s.holding (content ++ data) (surplus.drop 2) (some .chunkSize) := by
  have hmove : min chunkSize.toNat (data ++ surplus).length = data.length := by
    rw [List.length_append]
    omega
  unfold Session.onChunk
  simp only [Session.holding, hmove, List.take_left, List.drop_left]
  rw [List.length_append, if_neg (by omega), if_neg (by omega), if_neg (by omega)]
  rfl

end onChunkSize

/-! ### Chunks -/

section chunks

variable {stream : List Bytes} {start : ℕ}

/-- **A chunk is put behind the content**, and its line end is removed, whatever part of them has been
read along with the size.  The stream is read to the end of the chunk, or as far as it was. -/
theorem leads_onChunk {data surplus : Bytes} (hdata : data ≠ [])
    (hroom : content.length + data.length ≤ config.maxRequestStreambufSize.toNat)
    (h : Unread stream s.chunkSizeMaxSize start (data ++ (crlf ++ rest)) surplus pieces) :
    ∃ buffer' pieces',
      Unread stream s.chunkSizeMaxSize (start + (data.length + 2)) rest buffer' pieces' ∧
      start + (data.length + 2) + buffer'.length =
        max (start + surplus.length) (start + (data.length + 2)) ∧
      Machine.Leads (readStep members config order)
        ((s.holding content surplus none).onChunk config (UInt64.ofNat data.length) surplus.length,
          pieces)
        (s.holding (content ++ data) buffer' (some .chunkSize), pieces') := by
  have hlt := config.maxRequestStreambufSize.toNat_lt
  have hsize : (UInt64.ofNat data.length).toNat = data.length := by
    rw [UInt64.toNat_ofNat', Nat.mod_eq_of_lt (by omega)]
  have hroom' : content.length + (UInt64.ofNat data.length).toNat ≤
      config.maxRequestStreambufSize.toNat := by
    rwa [hsize]
  by_cases hless : surplus.length < data.length
  · -- the rest of the chunk is read, and then the line end
    obtain ⟨missing, rfl, hpieces⟩ := h.eq_missing hless.le
    have hmissing : missing ≠ [] := by
      rintro rfl
      rw [List.append_nil] at hless
      exact lt_irrefl _ hless
    rw [onChunk_less hsize hmissing hroom']
    obtain ⟨pieces₁, hpieces₁, hleaves₁, hchunk⟩ := @readStep_chunk members config order s
      (content ++ surplus) [] _ pieces missing hpieces
      (by rw [List.length_append, Nat.add_assoc, ← List.length_append]; exact hroom)
    obtain ⟨pieces₂, rfl, hleaves₂, hend⟩ := @readStep_chunkEnd members config order s
      (content ++ surplus ++ missing) [] rest pieces₁ crlf hpieces₁ le_rfl
    have hunread := (h.exactly hleaves₁).exactly hleaves₂
    rw [List.nil_append, show crlf.length = 2 from rfl, Nat.add_assoc] at hunread
    refine ⟨[], pieces₂, hunread, ?_, ?_⟩
    · rw [List.length_nil]
      omega
    · rw [← List.append_assoc]
      exact (Machine.Leads.one hchunk).trans (Machine.Leads.one hend)
  · obtain ⟨surplus', rfl⟩ := h.eq_append (by omega)
    have hbehind := h.consume
    by_cases hend : surplus'.length < 2
    · -- the rest of the line end is read
      rw [onChunk_between hsize hend hroom']
      obtain ⟨missing, hmissing, hpieces⟩ : ∃ missing, crlf = surplus' ++ missing ∧
          pieces.flatten = missing ++ rest := hbehind.eq_missing hend.le
      have hlength := congrArg List.length hmissing
      rw [List.length_append, show crlf.length = 2 from rfl] at hlength
      rw [show 2 - surplus'.length = missing.length by omega]
      obtain ⟨pieces₁, rfl, hleaves, hread⟩ := @readStep_chunkEnd members config order s
        (content ++ data) [] rest pieces missing hpieces (by omega)
      have hunread := hbehind.exactly hleaves
      rw [← hmissing, show crlf.length = 2 from rfl, Nat.add_assoc] at hunread
      refine ⟨[], pieces₁, hunread, ?_, Machine.Leads.one hread⟩
      rw [List.length_nil, List.length_append]
      omega
    · -- nothing is missing
      rw [onChunk_more hsize (by omega) hroom']
      obtain ⟨surplus'', rfl⟩ : ∃ surplus'', surplus' = crlf ++ surplus'' :=
        hbehind.eq_append (not_lt.1 hend)
      have hunread := hbehind.consume
      rw [show crlf.length = 2 from rfl, Nat.add_assoc] at hunread
      refine ⟨surplus'', pieces, hunread, ?_, Machine.Leads.refl _ _⟩
      simp only [List.length_append, show crlf.length = 2 from rfl]
      omega

/-- A chunk is read, from the line with its size on. -/
theorem leads_chunk (c : ExtendedChunk) (hline : c.line.length + 2 ≤ s.chunkSizeMaxSize)
    (hroom : content.length + c.data.length ≤ config.maxRequestStreambufSize.toNat)
    (h : Unread stream s.chunkSizeMaxSize start (c.encode ++ rest) buffer pieces) :
    ∃ buffer' pieces',
      Unread stream s.chunkSizeMaxSize (start + c.encode.length) rest buffer' pieces' ∧
      start + c.encode.length + buffer'.length =
        max (readFar stream s.chunkSizeMaxSize start (start + buffer.length)
          (start + (c.line.length + 2))) (start + c.encode.length) ∧
      Machine.Leads (readStep members config order)
        (s.holding content buffer (some .chunkSize), pieces)
        (s.holding (content ++ c.data) buffer' (some .chunkSize), pieces') := by
  rw [ExtendedChunk.encode, List.append_assoc, List.append_assoc] at h
  obtain ⟨surplus, pieces₁, hunread, hfar, hread⟩ :=
    @readStep_chunkSize members config order s content _ _ _ _ _ _ c.cr_line hline h
  rw [onChunkSize_chunk hroom] at hread
  rw [List.append_assoc] at hunread
  obtain ⟨buffer', pieces', hunread', hfar', hchunk⟩ :=
    @leads_onChunk members config order s content _ _ _ _ _ _ c.data_ne_nil hroom hunread
  rw [Nat.add_assoc start, ← c.length_encode] at hunread' hfar'
  exact ⟨buffer', pieces', hunread', by rw [hfar', hfar], (Machine.Leads.one hread).trans hchunk⟩

/-- **All chunks are put behind the content.** -/
theorem leads_chunks (cs : List ExtendedChunk)
    (hlines : ∀ c ∈ cs, c.line.length + 2 ≤ s.chunkSizeMaxSize)
    (hroom : content.length + (bodyOf cs).length ≤ config.maxRequestStreambufSize.toNat)
    (h : Unread stream s.chunkSizeMaxSize start (cs.flatMap ExtendedChunk.encode ++ rest) buffer
      pieces) :
    ∃ buffer' pieces',
      Unread stream s.chunkSizeMaxSize (start + (cs.flatMap ExtendedChunk.encode).length) rest buffer'
        pieces' ∧
      start + (cs.flatMap ExtendedChunk.encode).length + buffer'.length =
        chunksFar stream s.chunkSizeMaxSize start (start + buffer.length) cs ∧
      Machine.Leads (readStep members config order)
        (s.holding content buffer (some .chunkSize), pieces)
        (s.holding (content ++ bodyOf cs) buffer' (some .chunkSize), pieces') := by
  induction cs generalizing content buffer pieces start with
  | nil =>
      refine ⟨buffer, pieces, h, rfl, ?_⟩
      rw [bodyOf, List.flatMap_nil, List.append_nil]
      exact Machine.Leads.refl _ _
  | cons c cs ih =>
      have hcons : bodyOf (c :: cs) = c.data ++ bodyOf cs := List.flatMap_cons
      rw [hcons, List.length_append] at hroom
      rw [List.flatMap_cons, List.append_assoc] at h
      obtain ⟨buffer₁, pieces₁, hunread, hfar, hchunk⟩ := @leads_chunk members config order s
        content _ _ _ _ _ c (hlines c List.mem_cons_self) (by omega) h
      obtain ⟨buffer₂, pieces₂, hunread₂, hfar₂, hchunks⟩ :=
        @ih (content ++ c.data) buffer₁ pieces₁ (start + c.encode.length)
          (fun d hd => hlines d (List.mem_cons_of_mem _ hd))
          (by rw [List.length_append]; omega) hunread
      rw [hcons, ← List.append_assoc, List.flatMap_cons, List.length_append, ← Nat.add_assoc start,
        chunksFar, ← hfar]
      exact ⟨buffer₂, pieces₂, hunread₂, hfar₂, hchunk.trans hchunks⟩

/-- The chunks before the first one whose line is too long are read, and nothing is done then. -/
theorem leads_long (cs : List ExtendedChunk)
    (hlong : ∃ c ∈ cs, s.chunkSizeMaxSize < c.line.length + 2)
    (hroom : content.length + (bodyOf cs).length ≤ config.maxRequestStreambufSize.toNat)
    (h : Unread stream s.chunkSizeMaxSize start (cs.flatMap ExtendedChunk.encode ++ rest) buffer
      pieces) :
    ∃ content' buffer' pieces', Machine.Leads (readStep members config order)
      (s.holding content buffer (some .chunkSize), pieces)
      ((s.holding content' buffer' none).onError members .notFound, pieces') := by
  induction cs generalizing content buffer pieces start with
  | nil =>
      obtain ⟨c, hc, -⟩ := hlong
      cases hc
  | cons c cs ih =>
      have hcons : bodyOf (c :: cs) = c.data ++ bodyOf cs := List.flatMap_cons
      rw [hcons, List.length_append] at hroom
      rw [List.flatMap_cons, List.append_assoc] at h
      by_cases hline : c.line.length + 2 ≤ s.chunkSizeMaxSize
      · obtain ⟨buffer₁, pieces₁, hunread, -, hchunk⟩ := @leads_chunk members config order s
          content _ _ _ _ _ c hline (by omega) h
        have hlong' : ∃ d ∈ cs, s.chunkSizeMaxSize < d.line.length + 2 := by
          obtain ⟨d, hd, hlong⟩ := hlong
          rcases List.mem_cons.1 hd with rfl | hd
          · omega
          · exact ⟨d, hd, hlong⟩
        obtain ⟨content', buffer₂, pieces₂, hfails⟩ :=
          @ih (content ++ c.data) buffer₁ pieces₁ (start + c.encode.length) hlong'
            (by rw [List.length_append]; omega) hunread
        exact ⟨content', buffer₂, pieces₂, hchunk.trans hfails⟩
      · rw [ExtendedChunk.encode, List.append_assoc, List.append_assoc] at h
        obtain ⟨buffer', pieces', hread⟩ :=
          @readStep_long members config order s content _ _ _ _ _ _ c.cr_line (by omega) h
        exact ⟨content, buffer', pieces', Machine.Leads.one hread⟩

/-- The last chunk: the resource is found. -/
theorem leads_lastChunk (hmax : 16 + 2 ≤ s.chunkSizeMaxSize)
    (h : Unread stream s.chunkSizeMaxSize start (ascii "0" ++ (crlf ++ rest)) buffer pieces) :
    ∃ surplus pieces', surplus ++ pieces'.flatten = rest ∧
      start + 3 + surplus.length =
        readFar stream s.chunkSizeMaxSize start (start + buffer.length) (start + 3) ∧
      Machine.Leads (readStep members config order)
        (s.holding content buffer (some .chunkSize), pieces)
        ((s.holding content surplus none).findResource members order, pieces') := by
  obtain ⟨surplus, pieces', hunread, hfar, hread⟩ :=
    @readStep_chunkSize members config order s content buffer _ pieces stream start (ascii "0")
      (by decide) (by rw [show (ascii "0").length = 1 from rfl]; omega) h
  have hzero : strtoull 16 (ascii "0" ++ [13]) = some 0 := by decide +kernel
  rw [onChunkSize_sized (by decide) hzero, if_pos rfl] at hread
  exact ⟨surplus, pieces', hunread.flatten, hfar, Machine.Leads.one hread⟩

end chunks

/-! ### The whole request -/

/-- The requests that have been found. -/
def Session.found (s : Session) : List (RequestMessage × Bytes) := s.log.filterMap Event.found?

/-- The resource of a request is looked for once. -/
theorem found_findResource (s : Session) :
    (s.findResource members order).found = s.found ++ [(s.request, s.streambuf)] := by
  obtain ⟨es, responding, heq, hes⟩ := @Session.findResource_eq members order s
  have hnone : es.filterMap Event.found? = [] :=
    List.filterMap_eq_nil_iff.2 fun e he => (hes e he).1
  rw [heq, Session.found, List.filterMap_append, List.filterMap_cons, hnone]
  rfl

/-- A request whose head announces chunks has its content read in chunks. -/
theorem onParsed_chunked {head : Bytes} {request : RequestMessage} (h : ChunkedHead head request)
    {s : Session} (hrequest : s.request = request) (n : ℕ) :
    s.onParsed members config order n = s.moveLeftover.readChunkedTransferEncoded := by
  have hlength := findField_eq_none order h.no_contentLength
  obtain ⟨f, hfind⟩ : ∃ f, findField order request.header (ascii "Transfer-Encoding") = some f := by
    obtain ⟨g, hg, hname⟩ := h.transferEncoding
    refine Option.isSome_iff_exists.1 (List.find?_isSome.2 ⟨g, order.mem_elements.2 hg, ?_⟩)
    simpa using hname
  obtain ⟨hf, hname⟩ := findField_some order hfind
  unfold Session.onParsed
  rw [hrequest, hlength]
  dsimp only
  rw [hfind]
  exact if_pos (h.chunked f hf hname)

section request

variable {head : Bytes} {request : RequestMessage}

/-- The session that reads the chunks of a request. -/
def Session.ofChunked (config : Config) (pieces : List Bytes) (head : Bytes)
    (request : RequestMessage) : Session where
  request := request
  chunkSizeMaxSize := sizeBuffer config.maxRequestStreambufSize.toNat pieces head

/-- The head is read, and what is read along with it is in the buffer of the sizes. -/
theorem readStep_chunkedHead (h : ChunkedHead head request)
    (hhead : head.length ≤ config.maxRequestStreambufSize.toNat)
    (hpieces : pieces.flatten = head ++ rest) :
    ∃ surplus pieces',
      Unread pieces (sizeBuffer config.maxRequestStreambufSize.toNat pieces head) head.length rest
        surplus pieces' ∧
      head.length + surplus.length =
        readFar pieces config.maxRequestStreambufSize.toNat 0 0 head.length ∧
      readStep members config order (({} : Session).read, pieces) =
        some ((Session.ofChunked config pieces head request).holding [] surplus (some .chunkSize),
          pieces') := by
  have hwhole := Unread.refl pieces config.maxRequestStreambufSize.toNat
  rw [hpieces] at hwhole
  obtain ⟨data, pieces', hread, hunread, hle, hfar⟩ :=
    hwhole.until_found ErrorCode.notFound (by decide) (h.endOf_eq rest) hhead
  -- what has been read is the head, and what goes into the buffer of the sizes
  obtain ⟨surplus, rfl⟩ := hunread.eq_append hle
  have hbehind := hunread.consume
  have hparsed := @readStep_head _ _ members config order [] h.toRequestHead _ _ _ hread
  rw [onParsed_chunked h rfl] at hparsed
  simp only [List.nil_append, List.length_nil, Nat.zero_add, List.length_append] at hfar hbehind
  have hsize : sizeBuffer config.maxRequestStreambufSize.toNat pieces head =
      max (16 + 2) surplus.length := by
    rw [sizeBuffer, ← hfar, Nat.add_sub_cancel_left]
  rw [Session.ofChunked, hsize]
  exact ⟨surplus, pieces', ⟨hbehind.flatten, le_max_right _ _, hbehind.leaves⟩, hfar, hparsed⟩

/-- A request in chunks is read up to the line of the last chunk, which has size zero. -/
theorem leads_untilLast (h : ChunkedHead head request)
    (hhead : head.length ≤ config.maxRequestStreambufSize.toNat) (cs : List ExtendedChunk)
    (hlines : ∀ c ∈ cs,
      c.line.length + 2 ≤ sizeBuffer config.maxRequestStreambufSize.toNat pieces head)
    (hroom : (bodyOf cs).length ≤ config.maxRequestStreambufSize.toNat)
    (hpieces : pieces.flatten = head ++ (cs.flatMap ExtendedChunk.encode ++ rest)) :
    ∃ buffer left,
      Unread pieces (sizeBuffer config.maxRequestStreambufSize.toNat pieces head)
        (head.length + (cs.flatMap ExtendedChunk.encode).length) rest buffer left ∧
      head.length + (cs.flatMap ExtendedChunk.encode).length + buffer.length =
        chunksFar pieces (sizeBuffer config.maxRequestStreambufSize.toNat pieces head) head.length
          (readFar pieces config.maxRequestStreambufSize.toNat 0 0 head.length) cs ∧
      Machine.Leads (readStep members config order) (({} : Session).read, pieces)
        ((Session.ofChunked config pieces head request).holding (bodyOf cs) buffer (some .chunkSize),
          left) := by
  obtain ⟨surplus, pieces', hunread, hfar, hread⟩ :=
    @readStep_chunkedHead members config order _ pieces _ _ h hhead hpieces
  obtain ⟨buffer, left, hunread', hfar', hchunks⟩ :=
    @leads_chunks members config order (.ofChunked config pieces head request) [] _ _ _ _ _ cs hlines
      (by rwa [List.length_nil, Nat.zero_add]) hunread
  rw [← hfar]
  exact ⟨buffer, left, hunread', hfar', (Machine.Leads.one hread).trans hchunks⟩

/-- **The content of a request that is sent in chunks is what was sent**, in whatever pieces the stream
arrives, and its resource is looked for once. -/
theorem chunked_content {head : Bytes} {request : RequestMessage} (h : ChunkedHead head request)
    (hhead : head.length ≤ config.maxRequestStreambufSize.toNat) (cs : List Chunk)
    (hroom : (contentOf cs).length ≤ config.maxRequestStreambufSize.toNat)
    (hpieces : pieces.flatten = head ++ (encodeChunks cs ++ rest)) :
    ∃ m, ∀ n, m ≤ n →
      (readRequest members config order n pieces).1.found = [(request, contentOf cs)] := by
  -- there is room for a line without an extension
  have hlines : ∀ c ∈ cs.map Chunk.extended,
      c.line.length + 2 ≤ sizeBuffer config.maxRequestStreambufSize.toNat pieces head := by
    intro c hc
    obtain ⟨d, -, rfl⟩ := List.mem_map.1 hc
    have hdigits := d.length_digits
    rw [d.line_extended]
    exact le_max_of_le_left (by omega)
  rw [encodeChunks, List.append_assoc, ← flatMap_extended] at hpieces
  rw [← bodyOf_extended] at hroom ⊢
  obtain ⟨buffer, left, hunread, -, hchunks⟩ :=
    @leads_untilLast members config order _ pieces _ _ h hhead _ hlines hroom hpieces
  rw [List.append_assoc, List.append_assoc] at hunread
  obtain ⟨surplus, left', -, -, hlast⟩ := @leads_lastChunk members config order
    (.ofChunked config pieces head request) (bodyOf (cs.map Chunk.extended)) _ _ _ _ _
    (le_max_left _ _) hunread
  obtain ⟨m, hm⟩ := (hchunks.trans hlast).eventually
    (readStep_of_none (Session.logs_findResource _).reading left')
  refine ⟨m, ?_⟩
  intro n hn
  rw [readRequest, hm n hn]
  exact found_findResource _

end request

/-! #### Two chunks -/

def sampleHead : Bytes :=
  ascii "POST / HTTP/1.1" ++ crlf ++ ascii "Transfer-Encoding: chunked" ++ crlf ++ crlf

def sampleRequest : RequestMessage :=
  ⟨ascii "POST", ascii "/", [], ascii "1.1", [(ascii "Transfer-Encoding", ascii "chunked")]⟩

def sampleChunks : List Chunk :=
  [⟨ascii "3", ascii "abc", by decide, by decide, by decide +kernel, rfl, by decide⟩,
    ⟨ascii "0A", ascii "0123456789", by decide, by decide, by decide +kernel, rfl, by decide⟩]

theorem chunkedHead_sample : ChunkedHead sampleHead sampleRequest where
  whole := by decide
  regular := by decide
  parsed := ⟨[], by decide +kernel⟩
  no_contentLength := by decide
  transferEncoding := by decide
  chunked := by decide

/-- The first piece ends in the head, and the second one in the line end behind the first chunk. -/
theorem chunked_content_sample :
    ∃ m, ∀ n, m ≤ n → (readRequest {} {} .insertion n
      [sampleHead.take 20, sampleHead.drop 20 ++ (encodeChunks sampleChunks).take 7,
        (encodeChunks sampleChunks).drop 7]).1.found =
      [(sampleRequest, ascii "abc0123456789")] :=
  @chunked_content {} {} .insertion [] _ _ _ chunkedHead_sample (by decide) sampleChunks (by decide)
    (by decide)

end ServerBase

end SimpleWeb
