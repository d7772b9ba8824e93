/-
**The default response of the HTTP servers.**

A request that no handler takes is answered in one of three ways: with the file that is found for it,
with 403 if the file is outside of `rootPath`, and with 404 if there is none.  The two functions write
the status lines of the errors by hand.  They write no line end behind them, no field and no empty line;
and behind that of a 403 they serve a file, whose response begins with a status line of its own.  So
only a file that is found inside of `rootPath` is answered with a message.

Main definitions:

* `SimpleWeb.Output.run`, `SimpleWeb.respond` — what `httpDefaultCallback` does with the response;
* `SimpleWeb.foundFile`, `SimpleWeb.expectedStatus` — the file that is found, and the status that goes
  with it;
* `SimpleWeb.Answers` — the response is the message that is expected.

Main results:

* `SimpleWeb.answers_iff` — **for which requests the response is one message**;
* `SimpleWeb.error_unfinished` — the response to a request for a file that does not exist.
-/

import SimpleWeb.ServeFile

set_option relaxedAutoImplicit false
set_option autoImplicit false

namespace SimpleWeb

open ServerBase SimpleWebSocketServerBase

variable {κ : Type*}

/-! ### The response -/

/-- What is done with a response. -/
def Output.run (serve : File → Response κ → Option (Response κ)) (r : Response κ) :
    Output → Option (Response κ)
  | .text s => some (r.write s)
  | .serveFile file => serve file r

/-- Everything that is done with it.  Nothing is, if an exception is thrown before. -/
def respond (serve : File → Response κ → Option (Response κ)) (outs : Except Fault (List Output))
    (r : Response κ) : Option (Response κ) :=
  outs.toOption.bind fun outs => outs.foldlM (Output.run serve) r

/-- The contents of the files there are. -/
def FileSystem.disk (fs : FileSystem) (content : File → Bytes) (file : File) : Option Bytes :=
  if fs.existsAsFile file then some (content file) else none

section

variable (juce : Juce) (reader : FileReader) (order : Order) (fs : FileSystem)
  (content : File → Bytes) (rootPath : File) (handlers : List Bool) (path : Bytes)

/-- The response of the plain server. -/
def SimpleWebSocketServer.defaultResponse (r : Response κ) : Option (Response κ) :=
  respond (serveFileHttp reader order (fs.disk content))
    (SimpleWebSocketServer.httpDefaultCallback juce fs rootPath handlers path) r

/-- The response of the secure server. -/
def SecureWebSocketServer.defaultResponse (r : Response κ) : Option (Response κ) :=
  respond (serveFileHttps reader order (fs.disk content))
    (SecureWebSocketServer.httpDefaultCallback juce fs rootPath handlers path) r

/-! ### What is expected -/

/-- The file that is found for a request. -/
def foundFile : Option File :=
  match requestedFile juce fs rootPath path with
  | .error _ => none
  | .ok file =>
      if fs.kind rootPath = some .directory ∧ fs.kind file = some .file then some file else none

/-- The status that goes with it. -/
def expectedStatus : StatusCode :=
  match foundFile juce fs rootPath path with
  | none => .clientErrorNotFound
  | some file => if Below rootPath file then .successOk else .clientErrorForbidden

/-- One message has been written, with the status that is expected, and with a body whose length is
announced; it is the file that is found, or its text, if this is inside of `rootPath`. -/
def Answers (r : Response κ) (result : Option (Response κ)) : Prop :=
  ∃ bytes header body, result = some (r.write bytes) ∧
    OneMessage (expectedStatus juce fs rootPath path) header body bytes ∧
    Delimits header body.length ∧
    ∀ file, foundFile juce fs rootPath path = some file → Below rootPath file →
      body = fileBody reader file (content file)

end

variable {juce : Juce} {reader : FileReader} {order : Order} {fs : FileSystem}
  {content : File → Bytes} {rootPath file : File} {handlers : List Bool} {path : Bytes}

/-! ### What is done with the response -/

theorem foundFile_eq_some :
    foundFile juce fs rootPath path = some file ↔ requestedFile juce fs rootPath path = .ok file ∧
      fs.kind rootPath = some .directory ∧ fs.kind file = some .file := by
  unfold foundFile
  cases requestedFile juce fs rootPath path with
  | error fault => simp
  | ok f =>
      simp only [Option.ite_none_right_eq_some, Option.some.injEq, Except.ok.injEq]
      constructor
      · rintro ⟨h, rfl⟩
        exact ⟨rfl, h⟩
      · rintro ⟨rfl, h⟩
        exact ⟨h, rfl⟩

/-- The file that is found is served, by the copy that looks only if it is inside of `rootPath`. -/
theorem outputs_of_found (hhandlers : handlers.any id = false)
    (h : foundFile juce fs rootPath path = some file) :
    SimpleWebSocketServer.httpDefaultCallback juce fs rootPath handlers path =
        .ok (if Below rootPath file then [.serveFile file]
          else [.text (ascii "HTTP/1.1 403 Forbidden"),
            .serveFile (juce.getChildFile rootPath (ascii "403.html"))]) ∧
      SecureWebSocketServer.httpDefaultCallback juce fs rootPath handlers path =
        .ok [.serveFile file] := by
  obtain ⟨hrequested, hroot, hkind⟩ := foundFile_eq_some.1 h
  have hexists : fs.existsAsFile file = true := decide_eq_true hkind
  have hchild := juce.isAChildOf_iff file rootPath
  have hdirectory := (FileSystem.exists_isDirectory_iff rootPath).2 hroot
  unfold SimpleWebSocketServer.httpDefaultCallback SecureWebSocketServer.httpDefaultCallback
  rw [hhandlers, if_pos hdirectory, if_pos hdirectory, hrequested]
  simp only [Bool.false_eq_true, if_false, ok_bind, hexists, if_true]
  refine ⟨?_, rfl⟩
  by_cases hbelow : Below rootPath file
  · rw [if_pos hbelow, hchild.2 hbelow]
    rfl
  · have hout : juce.isAChildOf file rootPath = false := by
      rw [← Bool.not_eq_true, hchild]
      exact hbelow
    rw [if_neg hbelow, hout]
    rfl

/-- Without a file, both write the beginning of a status line, or throw. -/
theorem outputs_of_not_found (hhandlers : handlers.any id = false)
    (h : foundFile juce fs rootPath path = none) :
    (∃ fault, SimpleWebSocketServer.httpDefaultCallback juce fs rootPath handlers path =
          .error fault ∧
        SecureWebSocketServer.httpDefaultCallback juce fs rootPath handlers path = .error fault) ∨
      SimpleWebSocketServer.httpDefaultCallback juce fs rootPath handlers path =
          .ok [.text (ascii "HTTP/1.1 404 Not Found")] ∧
        SecureWebSocketServer.httpDefaultCallback juce fs rootPath handlers path =
          .ok [.text (ascii "HTTP/1.1 404 Not Found")] := by
  unfold SimpleWebSocketServer.httpDefaultCallback SecureWebSocketServer.httpDefaultCallback
  rw [hhandlers]
  simp only [Bool.false_eq_true, if_false, FileSystem.exists_isDirectory_iff]
  by_cases hroot : fs.kind rootPath = some .directory
  · rw [if_pos hroot, if_pos hroot]
    cases hrequested : requestedFile juce fs rootPath path with
    | error fault => exact Or.inl ⟨fault, rfl, rfl⟩
    | ok file =>
        have hexists : fs.existsAsFile file = false := by
          rw [← Bool.not_eq_true]
          intro hexists
          have hfound := foundFile_eq_some.2 ⟨hrequested, hroot, of_decide_eq_true hexists⟩
          rw [h] at hfound
          cases hfound
        simp only [ok_bind, hexists, Bool.false_eq_true, if_false]
        exact Or.inr ⟨rfl, rfl⟩
  · rw [if_neg hroot, if_neg hroot]
    exact Or.inr ⟨rfl, rfl⟩

/-! ### What is written -/

/-- Whatever file is served, a status line is written first. -/
theorem serveFile_writes {disk : File → Option Bytes} {r r' : Response κ}
    (h : serveFile reader order disk file r = some r') :
    ∃ rest, r' = r.write
      (ResponseMessage.statusLine (ascii "1.1") (SimpleWeb.statusCode .successOk) ++ rest) := by
  unfold serveFile at h
  rw [Response.writeStatus_eq] at h
  split at h
  · rw [← Option.some.inj h, Response.write_write, Response.contentBytes, List.append_assoc]
    exact ⟨_, rfl⟩
  · obtain ⟨body, -, rfl⟩ := Option.map_eq_some_iff.1 h
    rw [Response.write_write, Response.contentBytes, List.append_assoc]
    exact ⟨_, rfl⟩

/-- The beginning of a status line is no message. -/
theorem not_oneMessage_notFound {statusCode : StatusCode} {header : CaseInsensitiveMultimap}
    {body : Bytes} : ¬ OneMessage statusCode header body (ascii "HTTP/1.1 404 Not Found") := by
  intro h
  have hlf : 10 ∈ ascii "HTTP/1.1 404 Not Found" := by
    rw [h.bytes]
    simp
  revert hlf
  decide

/-- Nor is the beginning of one status line with another one behind it. -/
theorem not_oneMessage_forbidden {header : CaseInsensitiveMultimap} {body rest : Bytes} :
    ¬ OneMessage .clientErrorForbidden header body (ascii "HTTP/1.1 403 Forbidden" ++
      (ResponseMessage.statusLine (ascii "1.1") (SimpleWeb.statusCode .successOk) ++ rest)) := by
  intro h
  have hforbidden : ResponseMessage.statusLine (ascii "1.1")
      (SimpleWeb.statusCode .clientErrorForbidden) = ascii "HTTP/1.1 403 Forbidden" ++ [13] := by
    decide +kernel
  obtain ⟨line, hline⟩ : ∃ line, ResponseMessage.statusLine (ascii "1.1")
      (SimpleWeb.statusCode .successOk) = 72 :: line := ⟨_, rfl⟩
  have heq := h.bytes
  rw [hforbidden, hline, List.append_assoc] at heq
  have hhead := (List.cons.inj (List.append_cancel_left heq)).1
  revert hhead
  decide

/-- The default response of a server that serves the file that is found, if this is inside of
`rootPath`. -/
theorem answers_served (h : foundFile juce fs rootPath path = some file) (r : Response κ)
    (hbelow : Below rootPath file) :
    Answers juce reader fs content rootPath path r
        (respond (serveFile reader order (fs.disk content)) (.ok [.serveFile file]) r) ↔
      isText (MIMETypes.getMIMEType (reader.getFileExtension file)) = false ∨
        reader.AsLong (content file) := by
  have hkind := (foundFile_eq_some.1 h).2.2
  have hdisk : fs.disk content file = some (content file) := if_pos (decide_eq_true hkind)
  have hstatus : expectedStatus juce fs rootPath path = .successOk := by
    rw [expectedStatus, h]
    exact if_pos hbelow
  have hserved : respond (serveFile reader order (fs.disk content)) (.ok [.serveFile file]) r =
      some (r.write (fileBytes reader order (fs.disk content) file (content file))) := by
    rw [← serveFile_eq hdisk]
    simp [respond, Output.run, Except.toOption]
  have hsize := @delimits_fileHeader reader _ file _ order hdisk
  have hmessage := @oneMessage_fileBytes reader order (fs.disk content) file (content file)
  rw [hserved, ← length_fileBody_iff]
  unfold Answers
  rw [hstatus]
  constructor
  · rintro ⟨bytes, header, body, hbytes, hmessage', hdelimits, -⟩
    obtain rfl := write_inj.1 (Option.some.inj hbytes)
    obtain ⟨-, rfl, rfl⟩ := hmessage'.unique hmessage
    exact hdelimits.eq hsize
  · intro hlength
    refine ⟨_, _, _, rfl, hmessage, ?_, ?_⟩
    · rw [hlength]
      exact hsize
    · intro file' hfile' _
      rw [h] at hfile'
      rw [Option.some.inj hfile']

/-- A file outside of `rootPath` is not answered with a message that says so. -/
theorem not_answers_outside (h : foundFile juce fs rootPath path = some file) (r : Response κ)
    (hbelow : ¬ Below rootPath file) (file' : File) :
    ¬ Answers juce reader fs content rootPath path r
        (respond (serveFile reader order (fs.disk content))
          (.ok [.text (ascii "HTTP/1.1 403 Forbidden"), .serveFile file']) r) ∧
      ¬ Answers juce reader fs content rootPath path r
        (respond (serveFile reader order (fs.disk content)) (.ok [.serveFile file]) r) := by
  have hstatus : expectedStatus juce fs rootPath path = .clientErrorForbidden := by
    rw [expectedStatus, h]
    exact if_neg hbelow
  have hkind := (foundFile_eq_some.1 h).2.2
  have hdisk : fs.disk content file = some (content file) := if_pos (decide_eq_true hkind)
  unfold Answers
  rw [hstatus]
  constructor
  · rintro ⟨bytes, header, body, hbytes, hmessage, -⟩
    have hserved : serveFile reader order (fs.disk content) file'
        (r.write (ascii "HTTP/1.1 403 Forbidden")) = some (r.write bytes) := by
      rw [← hbytes]
      simp [respond, Output.run, Except.toOption]
    obtain ⟨rest, heq⟩ := serveFile_writes hserved
    rw [Response.write_write, write_inj] at heq
    rw [heq] at hmessage
    exact not_oneMessage_forbidden hmessage
  · rintro ⟨bytes, header, body, hbytes, hmessage, -⟩
    have hserved : serveFile reader order (fs.disk content) file r = some (r.write bytes) := by
      rw [← hbytes]
      simp [respond, Output.run, Except.toOption]
    rw [serveFile_eq hdisk, Option.some.injEq, write_inj] at hserved
    rw [← hserved] at hmessage
    have hsame := (hmessage.unique (oneMessage_fileBytes (fs.disk content) file (content file))).1
    revert hsame
    decide +kernel

/-- Nor is a request for which there is no file. -/
theorem not_answers_notFound {outs : Except Fault (List Output)} (r : Response κ)
    (h : (∃ fault, outs = .error fault) ∨ outs = .ok [.text (ascii "HTTP/1.1 404 Not Found")]) :
    ¬ Answers juce reader fs content rootPath path r
      (respond (serveFile reader order (fs.disk content)) outs r) := by
  rintro ⟨bytes, header, body, hbytes, hmessage, -⟩
  rcases h with ⟨fault, rfl⟩ | rfl
  · cases hbytes
  · have hwritten : some (r.write (ascii "HTTP/1.1 404 Not Found")) = some (r.write bytes) := by
      rw [← hbytes]
      rfl
    rw [Option.some.injEq, write_inj] at hwritten
    rw [← hwritten] at hmessage
    exact not_oneMessage_notFound hmessage

/-- **For which requests the response is one message**, of either server: those for which a file is found
inside of `rootPath`, unless it is taken for text and its text is not as long as the file. -/
theorem answers_iff (juce : Juce) (reader : FileReader) (order : Order) (fs : FileSystem)
    (content : File → Bytes) (rootPath : File) (hhandlers : handlers.any id = false) (path : Bytes)
    (r : Response κ) :
    (Answers juce reader fs content rootPath path r
        (SimpleWebSocketServer.defaultResponse juce reader order fs content rootPath handlers path r) ↔
      ∃ file, foundFile juce fs rootPath path = some file ∧ Below rootPath file ∧
        (isText (MIMETypes.getMIMEType (reader.getFileExtension file)) = false ∨
          reader.AsLong (content file))) ∧
    (Answers juce reader fs content rootPath path r
        (SecureWebSocketServer.defaultResponse juce reader order fs content rootPath handlers path r) ↔
      ∃ file, foundFile juce fs rootPath path = some file ∧ Below rootPath file ∧
        (isText (MIMETypes.getMIMEType (reader.getFileExtension file)) = false ∨
          reader.AsLong (content file))) := by
  unfold SimpleWebSocketServer.defaultResponse SecureWebSocketServer.defaultResponse serveFileHttp
    serveFileHttps
  cases hfound : foundFile juce fs rootPath path with
  | none =>
      have hnone : ¬ ∃ file, (none : Option File) = some file ∧ Below rootPath file ∧
          (isText (MIMETypes.getMIMEType (reader.getFileExtension file)) = false ∨
            reader.AsLong (content file)) := by
        rintro ⟨file, hfile, -⟩
        cases hfile
      rcases outputs_of_not_found hhandlers hfound with ⟨fault, hplain, hsecure⟩ | ⟨hplain, hsecure⟩
      · rw [hplain, hsecure]
        have hnot := @not_answers_notFound κ juce reader order fs content rootPath path
          (.error fault) r (Or.inl ⟨fault, rfl⟩)
        exact ⟨iff_of_false hnot hnone, iff_of_false hnot hnone⟩
      · rw [hplain, hsecure]
        have hnot := @not_answers_notFound κ juce reader order fs content rootPath path
          (.ok [.text (ascii "HTTP/1.1 404 Not Found")]) r (Or.inr rfl)
        exact ⟨iff_of_false hnot hnone, iff_of_false hnot hnone⟩
  | some file =>
      obtain ⟨hplain, hsecure⟩ := outputs_of_found hhandlers hfound
      simp only [Option.some.injEq, exists_eq_left']
      rw [hplain, hsecure]
      by_cases hbelow : Below rootPath file
      · have hserved := @answers_served κ juce reader order fs content rootPath file path hfound r
          hbelow
        rw [if_pos hbelow, and_iff_right hbelow]
        exact ⟨hserved, hserved⟩
      · have hout := @not_answers_outside κ juce reader order fs content rootPath file path hfound r
          hbelow (juce.getChildFile rootPath (ascii "403.html"))
        rw [if_neg hbelow]
        exact ⟨iff_of_false hout.1 fun h => hbelow h.1, iff_of_false hout.2 fun h => hbelow h.1⟩

/-! #### A picture, and a file that does not exist -/

/-- `/srv/www` with one file in it. -/
def sampleFiles : FileSystem :=
  FileSystem.single [ascii "srv", ascii "www"] [ascii "srv", ascii "www", ascii "a.png"] (by decide)

theorem answers_iff_picture :
    Answers Juce.posix FileReader.sample sampleFiles (fun _ => [137, 80]) [ascii "srv", ascii "www"]
      (ascii "/a.png") ({ session := {} } : Response ℕ)
      (SimpleWebSocketServer.defaultResponse Juce.posix FileReader.sample .insertion sampleFiles
        (fun _ => [137, 80]) [ascii "srv", ascii "www"] [] (ascii "/a.png") { session := {} }) :=
  (answers_iff Juce.posix FileReader.sample .insertion sampleFiles (fun _ => [137, 80]) _ rfl
    (ascii "/a.png") { session := {} }).1.2
    ⟨[ascii "srv", ascii "www", ascii "a.png"], by decide +kernel, by decide +kernel,
      Or.inl (by decide +kernel)⟩

/-- All that is sent is the beginning of a status line. -/
theorem error_unfinished :
    SimpleWebSocketServer.defaultResponse Juce.posix FileReader.sample .insertion sampleFiles
        (fun _ => []) [ascii "srv", ascii "www"] [] (ascii "/b.png")
        ({ session := {} } : Response ℕ) =
      some (({ session := {} } : Response ℕ).write (ascii "HTTP/1.1 404 Not Found")) ∧
    ¬ Answers Juce.posix FileReader.sample sampleFiles (fun _ => []) [ascii "srv", ascii "www"]
      (ascii "/b.png") ({ session := {} } : Response ℕ)
      (SimpleWebSocketServer.defaultResponse Juce.posix FileReader.sample .insertion sampleFiles
        (fun _ => []) [ascii "srv", ascii "www"] [] (ascii "/b.png") { session := {} }) := by
  have hout : SimpleWebSocketServer.httpDefaultCallback Juce.posix sampleFiles
      [ascii "srv", ascii "www"] [] (ascii "/b.png") =
      .ok [.text (ascii "HTTP/1.1 404 Not Found")] := by
    decide +kernel
  rw [SimpleWebSocketServer.defaultResponse, hout]
  exact ⟨rfl, not_answers_notFound _ (Or.inr rfl)⟩

end SimpleWeb
