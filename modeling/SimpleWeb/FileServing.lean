/-
**The files that the HTTP servers serve.**

A request that no handler takes is answered with a file below `rootPath`.  `SimpleWebSocketServer` and
`SecureWebSocketServer` have a copy each of the function that finds the file; both take the path of the
request, without its first character, for a path relative to `rootPath`.  Such a path may lead
anywhere: it may be absolute itself, and it may have `..` in it.  One of the copies looks at where it
has led before it serves the file.

Paths are normalised, and a file is the list of the components of its path.  JUCE is a parameter, with
what the functions rely on.

Main definitions:

* `SimpleWeb.Juce`, `SimpleWeb.FileSystem` — strings and paths, and the files there are;
* `SimpleWeb.SimpleWebSocketServer.httpDefaultCallback`,
  `SimpleWeb.SecureWebSocketServer.httpDefaultCallback` — the two copies;
* `SimpleWeb.Contained` — what is served is below `rootPath`;
* `SimpleWeb.LeadsOut` — a request leads to a file that is there and is not below `rootPath`;
* `SimpleWeb.Stays` — a path that does not lead out of `rootPath`, whatever there is.

Main results:

* `SimpleWeb.contained_iff` — **the copy that looks serves nothing else, the other one unless it is led
  out**;
* `SimpleWeb.stays_iff` — which paths lead out with no file;
* `SimpleWeb.serves_passwd` — a path with a second slash.
-/

import SimpleWeb.Http

set_option relaxedAutoImplicit false
set_option autoImplicit false

namespace SimpleWeb

/-! ### Paths -/

/-- A normalised absolute path, by its components. -/
abbrev File := List Bytes

/-- A component is appended, except that `.` and nothing stay where they are and `..` goes up. -/
def File.enter (file : File) (component : Bytes) : File :=
  if component = [] ∨ component = ascii "." then file
  else if component = ascii ".." then file.dropLast
  else file ++ [component]

/-- A relative path is resolved textually. -/
def File.resolve (file : File) (components : List Bytes) : File := components.foldl File.enter file

/-- `file` is a descendant of `root`. -/
def Below (root file : File) : Prop := root <+: file ∧ file ≠ root

instance (root file : File) : Decidable (Below root file) :=
  inferInstanceAs (Decidable (root <+: file ∧ file ≠ root))

/-- What the servers use of JUCE: the string made of a `std::string`, `File::isAbsolutePath`,
`File::getChildFile` and `File::isAChildOf`.  `components` are what the separators separate, and
`absolute` is the file of an absolute path. -/
structure Juce where
  string : Bytes → Bytes
  isAbsolutePath : Bytes → Bool
  components : Bytes → List Bytes
  absolute : Bytes → File
  getChildFile : File → Bytes → File
  isAChildOf : File → File → Bool
  getChildFile_absolute : ∀ file path, isAbsolutePath path = true →
    getChildFile file path = absolute path
  getChildFile_relative : ∀ file path, isAbsolutePath path = false →
    getChildFile file path = file.resolve (components path)
  isAChildOf_iff : ∀ file potentialParent, isAChildOf file potentialParent = true ↔
    Below potentialParent file
  plain_name : ∀ name ∈ [ascii "index.html", ascii "403.html"],
    isAbsolutePath name = false ∧ components name = [name]

inductive Kind
  | file
  | directory
  deriving DecidableEq

/-- What there is: everything is in a directory, up to the first one. -/
structure FileSystem where
  kind : File → Option Kind
  parent : ∀ file, kind file ≠ none → ∀ dir, Below dir file → kind dir = some .directory

namespace FileSystem

def exists' (fs : FileSystem) (file : File) : Bool := fs.kind file ≠ none

def isDirectory (fs : FileSystem) (file : File) : Bool := fs.kind file = some .directory

def existsAsFile (fs : FileSystem) (file : File) : Bool := fs.kind file = some .file

end FileSystem

/-! ### The two functions -/

/-- What is done with a response. -/
inductive Output
  | text (s : Bytes)
  | serveFile (file : File)
  deriving DecidableEq

variable (juce : Juce) (fs : FileSystem) (rootPath : File)

/-- The file that is asked for: the path without its first `/`, `index.html` if there is nothing else,
and `index.html` in a directory. -/
def requestedFile (path : Bytes) : Except Fault File := do
  let path ← substr path 1 path.length
  let path := juce.string path
  let path := if path = [] then ascii "index.html" else path
  let f := juce.getChildFile rootPath path
  return if fs.exists' f ∧ fs.isDirectory f then juce.getChildFile f (ascii "index.html") else f

/-- `httpDefaultCallback`; `handlers` are the answers of the secondary handlers. -/
def SimpleWebSocketServer.httpDefaultCallback (handlers : List Bool) (path : Bytes) :
    Except Fault (List Output) :=
  if handlers.any id then .ok []
  else if fs.exists' rootPath ∧ fs.isDirectory rootPath then do
    let f ← requestedFile juce fs rootPath path
    if fs.existsAsFile f then
      -- check that file is not outside rootPath
      if !juce.isAChildOf f rootPath then
        return [.text (ascii "HTTP/1.1 403 Forbidden"),
          .serveFile (juce.getChildFile rootPath (ascii "403.html"))]
      else return [.serveFile f]
    else return [.text (ascii "HTTP/1.1 404 Not Found")]
  else .ok [.text (ascii "HTTP/1.1 404 Not Found")]

/-- `httpDefaultCallback`, without the check. -/
def SecureWebSocketServer.httpDefaultCallback (handlers : List Bool) (path : Bytes) :
    Except Fault (List Output) :=
  if handlers.any id then .ok []
  else if fs.exists' rootPath ∧ fs.isDirectory rootPath then do
    let f ← requestedFile juce fs rootPath path
    if fs.existsAsFile f then return [.serveFile f]
    else return [.text (ascii "HTTP/1.1 404 Not Found")]
  else .ok [.text (ascii "HTTP/1.1 404 Not Found")]

/-- Every file that is served is below `rootPath`. -/
def Contained (r : Except Fault (List Output)) : Prop :=
  ∀ outs, r = .ok outs → ∀ file, .serveFile file ∈ outs → Below rootPath file

/-- The path that is looked for below `rootPath`. -/
def relativePath (path : Bytes) : Bytes :=
  if juce.string (path.drop 1) = [] then ascii "index.html" else juce.string (path.drop 1)

/-- Where a request path leads, as a text. -/
def target (path : Bytes) : File :=
  if juce.isAbsolutePath (relativePath juce path) then juce.absolute (relativePath juce path)
  else rootPath.resolve (juce.components (relativePath juce path))

/-- The file that is meant: `index.html`, if the path leads to a directory. -/
def soughtFile (path : Bytes) : File :=
  if fs.kind (target juce rootPath path) = some .directory then
    target juce rootPath path ++ [ascii "index.html"]
  else target juce rootPath path

/-- No handler takes the request, and what its path leads to from `rootPath` is a file, and outside. -/
def LeadsOut (handlers : List Bool) (path : Bytes) : Prop :=
  handlers.any id = false ∧ fs.kind rootPath = some .directory ∧ path ≠ [] ∧
    fs.kind (soughtFile juce fs rootPath path) = some .file ∧
    ¬ Below rootPath (soughtFile juce fs rootPath path)

instance (handlers : List Bool) (path : Bytes) :
    Decidable (LeadsOut juce fs rootPath handlers path) :=
  inferInstanceAs (Decidable (_ ∧ _ ∧ _ ∧ _ ∧ _))

/-- A request path does not lead out of `rootPath`: it leads to `rootPath` or to something below it, or
to a directory above it in which `index.html` is a directory on the way to it. -/
def Stays (path : Bytes) : Prop :=
  rootPath <+: target juce rootPath path ∨
    target juce rootPath path ++ [ascii "index.html"] <+: rootPath

variable {juce fs rootPath}

/-! ### What file is found -/

theorem below_append (file : File) (name : Bytes) : Below file (file ++ [name]) :=
  ⟨List.prefix_append file [name], by simp⟩

theorem Below.of_prefix {root dir file : File} (h : root <+: dir) (hfile : Below dir file) :
    Below root file := by
  refine ⟨h.trans hfile.1, ?_⟩
  rintro rfl
  exact hfile.2 (hfile.1.eq_of_length (Nat.le_antisymm hfile.1.length_le h.length_le)).symm

/-- A plain name is that of a child. -/
theorem getChildFile_name (file : File) {name : Bytes}
    (h : name ∈ [ascii "index.html", ascii "403.html"]) :
    juce.getChildFile file name = file ++ [name] := by
  obtain ⟨hrelative, hcomponents⟩ := juce.plain_name name h
  have hplain : ¬ (name = [] ∨ name = ascii ".") ∧ name ≠ ascii ".." := by
    rcases List.mem_pair.1 h with rfl | rfl
    · decide
    · decide
  rw [juce.getChildFile_relative file name hrelative, hcomponents]
  simp only [File.resolve, List.foldl_cons, List.foldl_nil, File.enter, if_neg hplain.1,
    if_neg hplain.2]

theorem getChildFile_relativePath (path : Bytes) :
    juce.getChildFile rootPath (relativePath juce path) = target juce rootPath path := by
  unfold target
  split
  · next h => exact juce.getChildFile_absolute rootPath _ h
  · next h => exact juce.getChildFile_relative rootPath _ (by simpa using h)

theorem FileSystem.exists_isDirectory_iff (file : File) :
    (fs.exists' file = true ∧ fs.isDirectory file = true) ↔ fs.kind file = some .directory := by
  simp only [FileSystem.exists', FileSystem.isDirectory, decide_eq_true_eq]
  constructor
  · intro h
    exact h.2
  · intro h
    exact ⟨by rw [h]; simp, h⟩

/-- A directory is asked for its `index.html`. -/
theorem requestedFile_eq {path : Bytes} (h : path ≠ []) :
    requestedFile juce fs rootPath path = .ok (soughtFile juce fs rootPath path) := by
  have hpos := List.length_pos_of_ne_nil h
  have htake : (path.drop 1).take path.length = path.drop 1 :=
    List.take_of_length_le (by simp)
  have hindex := @getChildFile_name juce (target juce rootPath path) (ascii "index.html") (by simp)
  rw [requestedFile, substr_of_le hpos, htake, ok_bind]
  show Except.ok (if fs.exists' (juce.getChildFile rootPath (relativePath juce path)) = true ∧
      fs.isDirectory (juce.getChildFile rootPath (relativePath juce path)) = true then
      juce.getChildFile (juce.getChildFile rootPath (relativePath juce path)) (ascii "index.html")
    else juce.getChildFile rootPath (relativePath juce path)) = _
  rw [getChildFile_relativePath, soughtFile]
  simp only [FileSystem.exists_isDirectory_iff, hindex]

theorem requestedFile_nil : requestedFile juce fs rootPath [] = .error .outOfRange := rfl

/-! ### What is served -/

/-- The copy that looks serves nothing that is not below `rootPath`. -/
theorem SimpleWebSocketServer.contained (handlers : List Bool) (path : Bytes) :
    Contained rootPath (httpDefaultCallback juce fs rootPath handlers path) := by
  intro outs houts file hfile
  unfold httpDefaultCallback at houts
  split at houts
  · obtain rfl := Except.ok.inj houts
    cases hfile
  split at houts
  · obtain ⟨f, -, hserve⟩ := exists_of_bind houts
    split at hserve
    · split at hserve
      · -- outside
        obtain rfl := Except.ok.inj hserve
        have hforbidden : file = juce.getChildFile rootPath (ascii "403.html") := by
          simpa using hfile
        rw [hforbidden, getChildFile_name rootPath (by simp)]
        exact below_append rootPath _
      · next hinside =>
          obtain rfl := Except.ok.inj hserve
          obtain rfl : file = f := by simpa using hfile
          exact (juce.isAChildOf_iff file rootPath).1 (by simpa using hinside)
    · obtain rfl := Except.ok.inj hserve
      simp at hfile
  · obtain rfl := Except.ok.inj houts
    simp at hfile

/-- What the other copy serves is a file, and the one that was asked for. -/
theorem SecureWebSocketServer.serveFile_iff {handlers : List Bool} {path : Bytes} {file : File} :
    (∃ outs, httpDefaultCallback juce fs rootPath handlers path = .ok outs ∧
      .serveFile file ∈ outs) ↔
    handlers.any id = false ∧ fs.kind rootPath = some .directory ∧
      requestedFile juce fs rootPath path = .ok file ∧ fs.kind file = some .file := by
  unfold httpDefaultCallback
  cases handlers.any id with
  | true => simp
  | false =>
      simp only [Bool.false_eq_true, if_false, FileSystem.exists_isDirectory_iff, true_and]
      by_cases hdir : fs.kind rootPath = some .directory
      · rw [if_pos hdir]
        cases hfound : requestedFile juce fs rootPath path with
        | error fault => simp
        | ok f =>
            simp only [ok_bind, hdir, true_and, Except.ok.injEq, FileSystem.existsAsFile,
              decide_eq_true_eq]
            constructor
            · rintro ⟨outs, houts, hmem⟩
              split at houts
              · next hkind =>
                  obtain rfl := Except.ok.inj houts
                  obtain rfl : file = f := by simpa using hmem
                  exact ⟨rfl, hkind⟩
              · obtain rfl := Except.ok.inj houts
                simp at hmem
            · rintro ⟨rfl, hkind⟩
              exact ⟨[.serveFile f], by rw [if_pos hkind]; rfl, by simp⟩
      · rw [if_neg hdir]
        simp [hdir]

/-- The other copy serves nothing else unless the request leads out. -/
theorem SecureWebSocketServer.contained_unless (handlers : List Bool) (path : Bytes) :
    Contained rootPath (httpDefaultCallback juce fs rootPath handlers path) ↔
      ¬ LeadsOut juce fs rootPath handlers path := by
  constructor
  · rintro h ⟨hhandlers, hroot, hne, hkind, hout⟩
    obtain ⟨outs, houts, hmem⟩ :=
      serveFile_iff.2 ⟨hhandlers, hroot, requestedFile_eq hne, hkind⟩
    exact hout (h outs houts _ hmem)
  · intro h outs houts file hfile
    obtain ⟨hhandlers, hroot, hrequested, hkind⟩ := serveFile_iff.1 ⟨outs, houts, hfile⟩
    have hne : path ≠ [] := by
      rintro rfl
      rw [requestedFile_nil] at hrequested
      cases hrequested
    rw [requestedFile_eq hne, Except.ok.injEq] at hrequested
    subst hrequested
    by_contra hout
    exact h ⟨hhandlers, hroot, hne, hkind, hout⟩

/-! ### What is served by them -/

/-- JUCE where the separator is `/`. -/
def Juce.posix : Juce where
  string s := s
  isAbsolutePath path := path.head? = some 47
  components path := path.splitOn 47
  absolute path := File.resolve [] (path.splitOn 47)
  getChildFile file path :=
    if path.head? = some 47 then File.resolve [] (path.splitOn 47)
    else file.resolve (path.splitOn 47)
  isAChildOf file potentialParent := Below potentialParent file
  getChildFile_absolute file path h := if_pos (by simpa using h)
  getChildFile_relative file path h := if_neg (by simpa using h)
  isAChildOf_iff file potentialParent := by simp
  plain_name name h := by
    rcases List.mem_pair.1 h with rfl | rfl
    · decide
    · decide

/-- There is one file, in the directories on the way to it and to `rootPath`. -/
def FileSystem.single (rootPath file : File) (h : ¬ file <+: rootPath) : FileSystem where
  kind f := if f = file then some .file
    else if f <+: file ∨ f <+: rootPath then some .directory else none
  parent f hf dir hdir := by
    have hdir' : dir <+: file ∨ dir <+: rootPath := by
      by_cases heq : f = file
      · exact Or.inl (heq ▸ hdir.1)
      · rw [if_neg heq] at hf
        split at hf
        · next hway => exact hway.imp hdir.1.trans hdir.1.trans
        · exact absurd rfl hf
    have hne : dir ≠ file := by
      rintro rfl
      by_cases heq : f = dir
      · exact hdir.2 heq
      · rw [if_neg heq] at hf
        split at hf
        · next hway =>
            rcases hway with hway | hway
            · exact heq (hway.eq_of_length (Nat.le_antisymm hway.length_le hdir.1.length_le))
            · exact h (hdir.1.trans hway)
        · exact absurd rfl hf
    rw [if_neg hne, if_pos hdir']

/-- **The plain server serves only what is below `rootPath`, and the secure one does unless the request
leads out of it**: for every file system, every answer of the handlers and every path. -/
theorem contained_iff (juce : Juce) (fs : FileSystem) (rootPath : File) (handlers : List Bool)
    (path : Bytes) :
    Contained rootPath
        (SimpleWebSocketServer.httpDefaultCallback juce fs rootPath handlers path) ∧
      (Contained rootPath
          (SecureWebSocketServer.httpDefaultCallback juce fs rootPath handlers path) ↔
        ¬ LeadsOut juce fs rootPath handlers path) :=
  ⟨SimpleWebSocketServer.contained handlers path,
    SecureWebSocketServer.contained_unless handlers path⟩

/-- With one file outside of `/srv/www`: a path that leads to it, the same one when a handler takes the
request, and a path that goes up and finds nothing. -/
theorem contained_iff_passwd :
    let rootPath := [ascii "srv", ascii "www"]
    let fs := FileSystem.single rootPath [ascii "etc", ascii "passwd"] (by decide)
    let secure := SecureWebSocketServer.httpDefaultCallback Juce.posix fs rootPath
    Contained rootPath
        (SimpleWebSocketServer.httpDefaultCallback Juce.posix fs rootPath [] (ascii "//etc/passwd")) ∧
      ¬ Contained rootPath (secure [] (ascii "/../../etc/passwd")) ∧
      Contained rootPath (secure [true] (ascii "/../../etc/passwd")) ∧
      Contained rootPath (secure [] (ascii "/../../etc/group")) := by
  intro rootPath fs secure
  have hiff := contained_iff Juce.posix fs rootPath
  refine ⟨(hiff _ _).1, ?_, (hiff _ _).2.2 (by decide +kernel), (hiff _ _).2.2 (by decide +kernel)⟩
  rw [(hiff _ _).2]
  decide +kernel

/-- `/srv/www` is served.  A request for `//etc/passwd` is answered with `/etc/passwd` by the secure
server, and with an error by the other one. -/
theorem serves_passwd :
    let rootPath := [ascii "srv", ascii "www"]
    let passwd := [ascii "etc", ascii "passwd"]
    let fs := FileSystem.single rootPath passwd (by decide)
    (∃ request rest,
      RequestMessage.parse (ascii "GET //etc/passwd HTTP/1.1" ++ crlf ++ crlf) {} =
        .ok (true, request, rest) ∧
      SecureWebSocketServer.httpDefaultCallback Juce.posix fs rootPath [] request.path =
        .ok [.serveFile passwd] ∧
      SimpleWebSocketServer.httpDefaultCallback Juce.posix fs rootPath [] request.path =
        .ok [.text (ascii "HTTP/1.1 403 Forbidden"),
          .serveFile [ascii "srv", ascii "www", ascii "403.html"]]) ∧
    ¬ Contained rootPath
      (SecureWebSocketServer.httpDefaultCallback Juce.posix fs rootPath [] (ascii "//etc/passwd")) := by
  refine ⟨⟨⟨ascii "GET", ascii "//etc/passwd", [], ascii "1.1", []⟩, [], ?_, ?_, ?_⟩, ?_⟩
  · decide +kernel
  · decide +kernel
  · decide +kernel
  · intro h
    have hserved : SecureWebSocketServer.httpDefaultCallback Juce.posix
        (FileSystem.single [ascii "srv", ascii "www"] [ascii "etc", ascii "passwd"] (by decide))
        [ascii "srv", ascii "www"] [] (ascii "//etc/passwd") =
        .ok [.serveFile [ascii "etc", ascii "passwd"]] := by decide +kernel
    have hbelow := h _ hserved [ascii "etc", ascii "passwd"] (by simp)
    exact absurd hbelow (by decide)

/-! ### Which paths lead out -/

/-- Below `rootPath`, and on the way to it, there is no file that is outside of it. -/
theorem Stays.not_leadsOut {handlers : List Bool} {path : Bytes} (h : Stays juce rootPath path) :
    ¬ LeadsOut juce fs rootPath handlers path := by
  rintro ⟨-, hroot, -, hkind, hout⟩
  unfold soughtFile at hkind hout
  rcases h with hinside | habove
  · -- at `rootPath` or below it
    split at hkind
    · next hdir =>
        rw [if_pos hdir] at hout
        exact hout (Below.of_prefix hinside (below_append _ _))
    · next hdir =>
        rw [if_neg hdir] at hout
        refine hout ⟨hinside, ?_⟩
        intro heq
        rw [heq] at hdir
        exact hdir hroot
  · -- above it, on the way to it
    have hon : ∀ dir, dir <+: rootPath → fs.kind dir = some .directory := by
      intro dir hdir
      by_cases heq : dir = rootPath
      · rw [heq]
        exact hroot
      · exact fs.parent rootPath (by rw [hroot]; simp) dir ⟨hdir, Ne.symm heq⟩
    rw [if_pos (hon _ ((List.prefix_append _ _).trans habove)), hon _ habove] at hkind
    cases hkind

/-- **Which paths lead out with no file**: the empty one, for which `substr` throws, and those that do
not lead out of `rootPath` as texts. -/
theorem stays_iff (juce : Juce) (rootPath : File) (handlers : List Bool)
    (hhandlers : handlers.any id = false) (path : Bytes) :
    (∀ fs, ¬ LeadsOut juce fs rootPath handlers path) ↔ path = [] ∨ Stays juce rootPath path := by
  constructor
  · intro h
    by_contra hleaves
    obtain ⟨hne, hstays⟩ := not_or.1 hleaves
    obtain ⟨hout, habove⟩ := not_or.1 hstays
    -- a file system in which a file is found that is not below `rootPath`
    obtain ⟨file, hfile, hbelow, hsought⟩ : ∃ (file : File) (hfile : ¬ file <+: rootPath),
        ¬ Below rootPath file ∧
        soughtFile juce (FileSystem.single rootPath file hfile) rootPath path = file := by
      by_cases hway : target juce rootPath path <+: rootPath
      · refine ⟨_, habove, ?_, by simp [soughtFile, FileSystem.single, hway]⟩
        rintro ⟨hpart, hneq⟩
        rcases List.prefix_concat_iff.1 hpart with heq | hpart
        · exact hneq heq.symm
        · exact hout hpart
      · exact ⟨_, hway, fun hbelow => hout hbelow.1, by simp [soughtFile, FileSystem.single]⟩
    have hroot : rootPath ≠ file := by
      rintro rfl
      exact hfile List.prefix_rfl
    refine h (FileSystem.single rootPath file hfile) ⟨hhandlers, ?_, hne, ?_, ?_⟩
    · simp [FileSystem.single, hroot]
    · rw [hsought]
      simp [FileSystem.single]
    · rw [hsought]
      exact hbelow
  · rintro (rfl | hstays) fs
    · rintro ⟨-, -, hne, -⟩
      exact hne rfl
    · exact hstays.not_leadsOut

end SimpleWeb
