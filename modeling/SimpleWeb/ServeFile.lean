/-
**The files in the responses of the HTTP servers.**

`serveFile` announces the size of a file as the length of the content, and writes the file behind it.  A
file whose type is one of text is read as a string first.  JUCE looks for a byte order mark when it does
so, converts what is in UTF-16, and ends the string at a null character; what is written is the string
in UTF-8, and it need not be as long as the file.

Main definitions:

* `SimpleWeb.MIMETypes.getMIMEType`, `SimpleWeb.isText` — the type of a file;
* `SimpleWeb.FileReader` — what is used of JUCE;
* `SimpleWeb.SimpleWebSocketServerBase.serveFile` — the function, for both servers;
* `SimpleWeb.OneMessage`, `SimpleWeb.Delimits` — one message, whose length is announced;
* `SimpleWeb.AsLong` — the files that are as long as the strings that are made of them.

Main results:

* `SimpleWeb.OneMessage.unique` — bytes are one message in one way only;
* `SimpleWeb.SimpleWebSocketServerBase.serveFile_eq` — what is written;
* `SimpleWeb.SimpleWebSocketServerBase.announces_iff` — **for which files the length is that of what is
  sent**.
-/

import SimpleWeb.ConnectionMap
import SimpleWeb.FileServing
import SimpleWeb.ResponseWrite
import SimpleWeb.Unicode

set_option relaxedAutoImplicit false
set_option autoImplicit false

namespace SimpleWeb

open ServerBase

/-! ### The type of a file -/

namespace MIMETypes

def mimeTypes : List (Bytes × Bytes) :=
  [ (ascii ".aac", ascii "audio/aac"),
    (ascii ".abw", ascii "application/x-abiword"),
    (ascii ".arc", ascii "application/octet-stream"),
    (ascii ".avi", ascii "video/x-msvideo"),
    (ascii ".azw", ascii "application/vnd.amazon.ebook"),
    (ascii ".bin", ascii "application/octet-stream"),
    (ascii ".bmp", ascii "image/bmp"),
    (ascii ".bz", ascii "application/x-bzip"),
    (ascii ".bz2", ascii "application/x-bzip2"),
    (ascii ".csh", ascii "application/x-csh"),
    (ascii ".css", ascii "text/css"),
    (ascii ".csv", ascii "text/csv"),
    (ascii ".doc", ascii "application/msword"),
    (ascii ".docx", ascii "application/vnd.openxmlformats-officedocument.wordprocessingml.document"),
    (ascii ".eot", ascii "application/vnd.ms-fontobject"),
    (ascii ".epub", ascii "application/epub+zip"),
    (ascii ".gif", ascii "image/gif"),
    (ascii ".html", ascii "text/html"),
    (ascii ".html", ascii "text/html"),
    (ascii ".ico", ascii "image/x-icon"),
    (ascii ".ics", ascii "text/calendar"),
    (ascii ".jar", ascii "application/java-archive"),
    (ascii ".jpeg", ascii "image/jpeg"),
    (ascii ".jpg", ascii "image/jpeg"),
    (ascii ".js", ascii "application/javascript"),
    (ascii ".json", ascii "application/json"),
    (ascii ".mid", ascii "audio/midi"),
    (ascii ".midi", ascii "audio/midi"),
    (ascii ".mpeg", ascii "video/mpeg"),
    (ascii ".mp4", ascii "video/mp4s"),
    (ascii ".mpkg", ascii "application/vnd.apple.installer+xml"),
    (ascii ".odp", ascii "application/vnd.oasis.opendocument.presentation"),
    (ascii ".ods", ascii "application/vnd.oasis.opendocument.spreadsheet"),
    (ascii ".odt", ascii "application/vnd.oasis.opendocument.text"),
    (ascii ".oga", ascii "audio/ogg"),
    (ascii ".ogv", ascii "video/ogg"),
    (ascii ".ogx", ascii "application/ogg"),
    (ascii ".otf", ascii "font/otf"),
    (ascii ".png", ascii "image/png"),
    (ascii ".pdf", ascii "application/pdf"),
    (ascii ".ppt", ascii "application/vnd.ms-powerpoint"),
    (ascii ".pptx", ascii "application/vnd.openxmlformats-officedocument.presentationml.presentation"),
    (ascii ".rar", ascii "application/x-rar-compressed"),
    (ascii ".rtf", ascii "application/rtf"),
    (ascii ".sh", ascii "application/x-sh"),
    (ascii ".svg", ascii "image/svg+xml"),
    (ascii ".swf", ascii "application/x-shockwave-flash"),
    (ascii ".tar", ascii "application/x-tar"),
    (ascii ".tif", ascii "image/tiff"),
    (ascii ".tiff", ascii "image/tiff"),
    (ascii ".ts", ascii "application/typescript"),
    (ascii ".ttf", ascii "font/ttf"),
    (ascii ".vsd", ascii "application/vnd.visio"),
    (ascii ".wav", ascii "audio/x-wav"),
    (ascii ".weba", ascii "audio/webm"),
    (ascii ".webm", ascii "video/webm"),
    (ascii ".webp", ascii "image/webp"),
    (ascii ".woff", ascii "font/woff"),
    (ascii ".woff2", ascii "font/woff2"),
    (ascii ".xhtml", ascii "application/xhtml+xml"),
    (ascii ".xls", ascii "application/vnd.ms-excel"),
    (ascii ".xlsx", ascii "application/vnd.openxmlformats-officedocument.spreadsheetml.sheet"),
    (ascii ".xml", ascii "application/xml"),
    (ascii ".xul", ascii "application/vnd.mozilla.xul+xml"),
    (ascii ".zip", ascii "application/zip"),
    (ascii ".3gp", ascii "video/3gpp"),
    (ascii ".3g2", ascii "video/3gpp2"),
    (ascii ".7z", ascii "application/x-7z-compressed") ]

def getMIMEType (extension : Bytes) : Bytes := (mimeTypes.lookup extension).getD []

end MIMETypes

/-- The types that are taken for text. -/
def isText (contentType : Bytes) : Bool :=
  ascii "text" <:+: contentType ∨ ascii "json" <:+: contentType ∨ ascii "script" <:+: contentType ∨
    ascii "css" <:+: contentType

/-! ### The function -/

/-- What `serveFile` uses of JUCE: `File::getFileExtension`, and the text that `File::loadFileAsString`
and `String::toStdString` make of the content of a file.  Of a text in UTF-8, or in UTF-16 with a mark,
it is the text without its mark, up to a null character, in UTF-8.  What stands there for two surrogates
is a parameter, which UTF-8 is one value of; and nothing is said of bytes that are neither. -/
structure FileReader where
  getFileExtension : File → Bytes
  text : Bytes → Bytes
  surrogates : Char → Bytes
  text_utf8 : ∀ chars, text (Unicode.utf8 chars) = Unicode.utf8 (Unicode.visible chars)
  text_utf16 : ∀ bigEndian chars, text (Unicode.utf16 bigEndian (Unicode.mark :: chars)) =
    Unicode.convert surrogates (Unicode.visible (Unicode.mark :: chars))

variable {κ : Type*}

namespace SimpleWebSocketServerBase

variable (reader : FileReader) (order : Order)

/-- The fields of the response: the size of a file that does not exist is zero. -/
def fileHeader (disk : File → Option Bytes) (file : File) : CaseInsensitiveMultimap :=
  let header := emplace [] (ascii "Content-Length") (toDecimal ((disk file).getD []).length)
  let header := emplace header (ascii "Content-Type")
    (MIMETypes.getMIMEType (reader.getFileExtension file))
  let header := emplace header (ascii "Accept-range") (ascii "bytes")
  emplace header (ascii "Access-Control-Allow-Origin") (ascii "*")

/-- `serveFile`, with the contents of the files there are.  Without a file, there is no stream to read
from. -/
def serveFile (disk : File → Option Bytes) (file : File) (r : Response κ) : Option (Response κ) :=
  let r := r.writeStatus order .successOk (fileHeader reader disk file)
  if isText (MIMETypes.getMIMEType (reader.getFileExtension file)) then
    some (r.write (reader.text ((disk file).getD [])))
  else (disk file).map r.write

/-- The overload for responses of the plain server. -/
def serveFileHttp : (File → Option Bytes) → File → Response κ → Option (Response κ) :=
  serveFile reader order

/-- The overload for responses of the secure server. -/
def serveFileHttps : (File → Option Bytes) → File → Response κ → Option (Response κ) :=
  serveFile reader order

end SimpleWebSocketServerBase

/-! ### Messages -/

/-- Bytes that are one message: a status line, fields on a line each, an empty line, and a body. -/
structure OneMessage (statusCode : StatusCode) (header : CaseInsensitiveMultimap) (body bytes : Bytes) :
    Prop where
  plain : ∀ f ∈ header, HttpHeader.Plain f
  bytes : bytes = ResponseMessage.statusLine (ascii "1.1") (SimpleWeb.statusCode statusCode) ++
    10 :: (HttpHeader.fieldLines header ++ body)

/-- A body of the given size is delimited: one field says how long it is. -/
def Delimits (header : CaseInsensitiveMultimap) (size : ℕ) : Prop :=
  ∃ f ∈ header, Response.IsContentLength f ∧ (∀ g ∈ header, Response.IsContentLength g → g = f) ∧
    f.2 = toDecimal size

theorem OneMessage.parse {statusCode : StatusCode} {header : CaseInsensitiveMultimap}
    {body bytes : Bytes} (h : OneMessage statusCode header body bytes) :
    ResponseMessage.parse bytes {} =
      .ok (true, ⟨ascii "1.1", SimpleWeb.statusCode statusCode, header⟩, body) := by
  rw [h.bytes]
  exact ResponseMessage.parse_response (by decide) (crlf_not_mem_statusCode statusCode).2
    (HttpHeader.parse_fields h.plain body) {}

/-- **Bytes are a message in one way only.** -/
theorem OneMessage.unique {c c' : StatusCode} {header header' : CaseInsensitiveMultimap}
    {body body' bytes : Bytes} (h : OneMessage c header body bytes)
    (h' : OneMessage c' header' body' bytes) :
    SimpleWeb.statusCode c = SimpleWeb.statusCode c' ∧ header = header' ∧ body = body' := by
  have heq := h.parse.symm.trans h'.parse
  simp only [Except.ok.injEq, Prod.mk.injEq, true_and, ResponseMessage.mk.injEq] at heq
  exact ⟨heq.1.1, heq.1.2, heq.2⟩

/-- A size is announced by one number. -/
theorem Delimits.eq {header : CaseInsensitiveMultimap} {m n : ℕ} (h : Delimits header m)
    (h' : Delimits header n) : m = n := by
  obtain ⟨f, hf, hlength, -, hm⟩ := h
  obtain ⟨g, -, -, honly, hn⟩ := h'
  rw [honly f hf hlength, hn] at hm
  exact (toDecimal_inj.1 hm).symm

/-- What is written to a response is seen in its stream. -/
theorem write_inj {r : Response κ} {a b : Bytes} : r.write a = r.write b ↔ a = b := by
  constructor
  · intro h
    exact List.append_cancel_left (congrArg Response.streambuf h)
  · rintro rfl
    rfl

/-! ### What is written -/

/-- Types have no blanks and no line ends. -/
theorem token_getMIMEType (extension : Bytes) : Token (MIMETypes.getMIMEType extension) := by
  have htable : (MIMETypes.mimeTypes.all fun p => p.2.all (32 < ·)) = true := by
    decide +kernel
  rw [MIMETypes.getMIMEType]
  cases hlookup : MIMETypes.mimeTypes.lookup extension with
  | none => decide
  | some contentType =>
      obtain ⟨xs, ys, heq, -⟩ := List.lookup_eq_some_iff.1 hlookup
      have hmem : (extension, contentType) ∈ MIMETypes.mimeTypes := by
        rw [heq]
        simp
      refine Token.of_lt ?_
      intro b hb
      simpa using List.all_eq_true.1 (List.all_eq_true.1 htable _ hmem) b hb

namespace SimpleWebSocketServerBase

variable {reader : FileReader} {order : Order} {disk : File → Option Bytes} {file : File}
  {content : Bytes}

/-- The body of the response: the file, or its text. -/
def fileBody (reader : FileReader) (file : File) (content : Bytes) : Bytes :=
  if isText (MIMETypes.getMIMEType (reader.getFileExtension file)) then reader.text content
  else content

/-- The bytes of the response. -/
def fileBytes (reader : FileReader) (order : Order) (disk : File → Option Bytes) (file : File)
    (content : Bytes) : Bytes :=
  ResponseMessage.statusLine (ascii "1.1") (SimpleWeb.statusCode .successOk) ++
    10 :: (HttpHeader.fieldLines (order.elements (fileHeader reader disk file)) ++
      fileBody reader file content)

theorem mem_fileHeader {f : Bytes × Bytes} :
    f ∈ fileHeader reader disk file ↔
      f = (ascii "Content-Length", toDecimal ((disk file).getD []).length) ∨
      f = (ascii "Content-Type", MIMETypes.getMIMEType (reader.getFileExtension file)) ∨
      f = (ascii "Accept-range", ascii "bytes") ∨
      f = (ascii "Access-Control-Allow-Origin", ascii "*") := by
  simp [fileHeader, emplace]

theorem plain_fileHeader (disk : File → Option Bytes) (file : File) :
    ∀ f ∈ fileHeader reader disk file, HttpHeader.Plain f := by
  intro f hf
  rcases mem_fileHeader.1 hf with rfl | rfl | rfl | rfl
  · exact (token_toDecimal _).plain (by decide)
  · exact (token_getMIMEType _).plain (by decide)
  · decide
  · decide

/-- Only a name matters. -/
theorem isContentLength_iff {name value : Bytes} :
    Response.IsContentLength (name, value) ↔
      caseInsensitiveEqual name (ascii "content-length") = true :=
  Iff.rfl

/-- The size of the file is announced. -/
theorem delimits_fileHeader (order : Order) (h : disk file = some content) :
    Delimits (order.elements (fileHeader reader disk file)) content.length := by
  refine ⟨(ascii "Content-Length", toDecimal content.length), ?_, ?_, ?_, rfl⟩
  · rw [order.mem_elements, mem_fileHeader, h]
    exact Or.inl rfl
  · rw [isContentLength_iff]
    decide
  · intro g hg hname
    rw [order.mem_elements, mem_fileHeader, h] at hg
    rcases hg with rfl | rfl | rfl | rfl
    · rfl
    · rw [isContentLength_iff] at hname
      exact absurd hname (by decide)
    · exact absurd hname (by decide)
    · exact absurd hname (by decide)

/-- A field announces the length already, and none is added. -/
theorem contentLength_fileHeader (disk : File → Option Bytes) (file : File)
    (closeConnectionAfterResponse : Bool) (size : ℕ) :
    Response.contentLength closeConnectionAfterResponse (fileHeader reader disk file) size = [] := by
  rw [Response.contentLength]
  refine if_pos (Or.inl ⟨_, mem_fileHeader.2 (Or.inl rfl), ?_⟩)
  rw [isContentLength_iff]
  decide

/-- **What is written for a file that exists.** -/
theorem serveFile_eq (h : disk file = some content) (r : Response κ) :
    serveFile reader order disk file r = some (r.write (fileBytes reader order disk file content)) := by
  have hhead : ∀ body : Bytes,
      (r.contentBytes order .successOk [] (fileHeader reader disk file)) ++ body =
      ResponseMessage.statusLine (ascii "1.1") (SimpleWeb.statusCode .successOk) ++
        10 :: (HttpHeader.fieldLines (order.elements (fileHeader reader disk file)) ++ body) := by
    intro body
    simp [Response.contentBytes, contentLength_fileHeader]
  rw [serveFile, Response.writeStatus_eq, h, fileBytes, fileBody]
  split
  · rw [Option.getD_some, Response.write_write, hhead]
  · rw [Option.map_some, Response.write_write, hhead]

theorem oneMessage_fileBytes (disk : File → Option Bytes) (file : File) (content : Bytes) :
    OneMessage .successOk (order.elements (fileHeader reader disk file))
      (fileBody reader file content) (fileBytes reader order disk file content) :=
  ⟨fun f hf => plain_fileHeader disk file f (order.mem_elements.1 hf), rfl⟩

end SimpleWebSocketServerBase

/-! ### What is announced -/

/-- A file whose text is as long as the file: it is a text in UTF-8 without a mark and without a null
character; or it is a text in UTF-16 with a mark, and what is seen of it is converted to as many bytes; or
it is in neither of the encodings, and the string that is made of it happens to be as long. -/
def FileReader.AsLong (reader : FileReader) (content : Bytes) : Prop :=
  (∃ chars, content = Unicode.utf8 chars ∧ chars.head? ≠ some Unicode.mark ∧ Unicode.null ∉ chars) ∨
  (∃ bigEndian chars, content = Unicode.utf16 bigEndian (Unicode.mark :: chars) ∧
    (Unicode.convert reader.surrogates (Unicode.visible (Unicode.mark :: chars))).length =
      content.length) ∨
  ((∀ chars, content ≠ Unicode.utf8 chars) ∧
    (∀ bigEndian chars, content ≠ Unicode.utf16 bigEndian (Unicode.mark :: chars)) ∧
    (reader.text content).length = content.length)

theorem FileReader.length_text_iff (reader : FileReader) (content : Bytes) :
    (reader.text content).length = content.length ↔ reader.AsLong content := by
  constructor
  · intro h
    by_cases hutf8 : ∃ chars, content = Unicode.utf8 chars
    · obtain ⟨chars, rfl⟩ := hutf8
      rw [reader.text_utf8] at h
      exact Or.inl ⟨chars, rfl, (Unicode.length_visible_iff chars).1 h⟩
    by_cases hutf16 : ∃ bigEndian chars, content = Unicode.utf16 bigEndian (Unicode.mark :: chars)
    · obtain ⟨bigEndian, chars, rfl⟩ := hutf16
      rw [reader.text_utf16] at h
      exact Or.inr (Or.inl ⟨bigEndian, chars, rfl, h⟩)
    · -- nothing is known of what the reader makes of it
      refine Or.inr (Or.inr ⟨not_exists.1 hutf8, ?_, h⟩)
      intro bigEndian chars heq
      exact hutf16 ⟨bigEndian, chars, heq⟩
  · rintro (⟨chars, rfl, hwhole⟩ | ⟨bigEndian, chars, rfl, hlength⟩ | ⟨-, -, h⟩)
    · rw [reader.text_utf8]
      exact (Unicode.length_visible_iff chars).2 hwhole
    · rw [reader.text_utf16, hlength]
    · exact h

namespace SimpleWebSocketServerBase

variable {reader : FileReader} {order : Order} {disk : File → Option Bytes} {file : File}
  {content : Bytes}

/-- One message has been written, whose length is announced, and whose body is the file unless it is a
text. -/
def Announces (reader : FileReader) (file : File) (content : Bytes) (r : Response κ)
    (result : Option (Response κ)) : Prop :=
  ∃ bytes header body, result = some (r.write bytes) ∧ OneMessage .successOk header body bytes ∧
    Delimits header body.length ∧
    (isText (MIMETypes.getMIMEType (reader.getFileExtension file)) = false → body = content)

/-- The body is as long as the file. -/
theorem length_fileBody_iff (reader : FileReader) (file : File) (content : Bytes) :
    (fileBody reader file content).length = content.length ↔
      isText (MIMETypes.getMIMEType (reader.getFileExtension file)) = false ∨
        reader.AsLong content := by
  rw [fileBody, ← reader.length_text_iff]
  cases isText (MIMETypes.getMIMEType (reader.getFileExtension file)) with
  | false => simp
  | true => simp

theorem announces_serveFile_iff (h : disk file = some content) (r : Response κ) :
    Announces reader file content r (serveFile reader order disk file r) ↔
      isText (MIMETypes.getMIMEType (reader.getFileExtension file)) = false ∨
        reader.AsLong content := by
  have hsize := @delimits_fileHeader reader disk file content order h
  rw [serveFile_eq h, ← length_fileBody_iff]
  constructor
  · rintro ⟨bytes, header, body, hbytes, hmessage, hdelimits, -⟩
    obtain rfl := write_inj.1 (Option.some.inj hbytes)
    obtain ⟨-, rfl, rfl⟩ := hmessage.unique (oneMessage_fileBytes disk file content)
    exact hdelimits.eq hsize
  · intro hlength
    refine ⟨_, _, _, rfl, oneMessage_fileBytes disk file content, ?_, ?_⟩
    · rw [hlength]
      exact hsize
    · intro htext
      rw [fileBody, htext]
      rfl

/-- **For which files the length is that of what is sent**, by both overloads: those whose type is none
of text, and those whose text is as long as the file. -/
theorem announces_iff (reader : FileReader) (order : Order) (h : disk file = some content)
    (r : Response κ) :
    Announces reader file content r (serveFileHttp reader order disk file r) ∧
      Announces reader file content r (serveFileHttps reader order disk file r) ↔
    isText (MIMETypes.getMIMEType (reader.getFileExtension file)) = false ∨ reader.AsLong content := by
  rw [serveFileHttp, serveFileHttps, and_self]
  exact announces_serveFile_iff h r

end SimpleWebSocketServerBase

/-! #### A page with a byte order mark, and one without -/

/-- The extension of the last component. -/
def FileReader.sample : FileReader where
  getFileExtension file :=
    if 46 ∈ file.getLastD [] then 46 :: ((file.getLastD []).splitOn 46).getLastD [] else []
  text := Unicode.transcode
  surrogates := String.utf8EncodeChar
  text_utf8 := Unicode.transcode_utf8
  text_utf16 bigEndian chars := by
    rw [Unicode.transcode_utf16, Unicode.convert_utf8EncodeChar]

/-- Two letters, with a mark in front of them or without. -/
def samplePage (marked : Bool) : Bytes :=
  Unicode.utf8 (if marked then [Unicode.mark, 'h', 'i'] else ['h', 'i'])

theorem SimpleWebSocketServerBase.announces_iff_page :
    Announces FileReader.sample [ascii "a.html"] (samplePage false)
        ({ session := {} } : Response ℕ)
        (serveFileHttp FileReader.sample .insertion (fun _ => some (samplePage false))
          [ascii "a.html"] { session := {} }) ∧
      Announces FileReader.sample [ascii "a.html"] (samplePage false)
        ({ session := {} } : Response ℕ)
        (serveFileHttps FileReader.sample .insertion (fun _ => some (samplePage false))
          [ascii "a.html"] { session := {} }) :=
  (announces_iff FileReader.sample .insertion rfl { session := {} }).2
    (Or.inr (Or.inl ⟨['h', 'i'], rfl, by decide, by decide⟩))

/-- Five bytes are announced and two are sent. -/
theorem SimpleWebSocketServerBase.mark_left_out :
    (samplePage true).length = 5 ∧
    fileBody FileReader.sample [ascii "a.html"] (samplePage true) = ascii "hi" ∧
    ¬ Announces FileReader.sample [ascii "a.html"] (samplePage true)
      ({ session := {} } : Response ℕ)
      (serveFileHttp FileReader.sample .insertion (fun _ => some (samplePage true))
        [ascii "a.html"] { session := {} }) := by
  have hbody : fileBody FileReader.sample [ascii "a.html"] (samplePage true) = ascii "hi" := by
    decide +kernel
  refine ⟨by decide +kernel, hbody, ?_⟩
  intro h
  rw [serveFileHttp, announces_serveFile_iff rfl, ← length_fileBody_iff, hbody] at h
  revert h
  decide +kernel

end SimpleWeb
